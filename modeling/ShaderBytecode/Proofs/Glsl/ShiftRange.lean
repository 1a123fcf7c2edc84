import ShaderBytecode.Proofs.Glsl.BitRules

/-!
# Shifts beyond the word

An operation that shifts is lowered to the operator itself, and the whole word of its last source is
the count. An operation that extracts bits cuts the offset and the width off to five bits, but does
not look at their sum. So the words in the registers decide whether the language says what comes
out:

    shift_and_extract_settled_iff : it does, and it says what the operation gives, exactly if the
      count is below 32, or if the field ends within the word

What a shift gives beyond is not a question of this shader. Other implementations of the language
may give other results, and the operation of the instruction set has only one.
-/

namespace ShaderBytecode

open Glsl

/-- A source is lowered for a mask to an expression that has a word in each lane. -/
def Operand.Supplies (A : Arithmetic) (scope : Scope) (m : Memory) (ctx : Context) (o : Operand)
    (mask : LaneMask) (t : NumberType) (words : Lane → UInt32) : Prop :=
  (o.source ctx mask t).value.eval A scope m = mask.lanes.map fun lane => .ofWord t (words lane)

namespace Glsl

section

variable {A : Arithmetic} {S : LaneArithmetic} {scope : Scope} {m : Memory}

/-! ### Words of sources

The words in the registers are related to the sources by what the operands denote. -/

/-- What an operand denotes is what its source supplies. -/
theorem supplies_of_denotes {c : Container} {o : Operand} {words : Lane → UInt32} {mask : LaneMask}
    {t : NumberType} (hA : A.Lawful) (hscope : scope.Declares (contextOf c))
    (h : o.Denotes m words) (hwords : o.HasWordPositions) (hmask : mask ≠ 0) (ht : t ≠ .double) :
    o.Supplies A scope m (contextOf c) mask t words := by
  have hholds := (holdsLanes_source hA hscope h hwords hmask ht).holds
  rw [Operand.Supplies, hholds.eval, List.map_map]
  rfl

theorem component_of_lt {v : Value} {i : Nat} (h : i < v.length) : v.component i = v[i] := by
  unfold Value.component
  split
  · exact (List.getElem_singleton _).symm
  · rw [List.getElem?_eq_getElem h]
    rfl

/-- Arithmetic on single components that follows the rules extends to lawful arithmetic. -/
theorem lawful_vectors (hS : S.BitRules) : S.vectors.Lawful where
  bitCast {f source target} hf ws := by
    have hcall (v : Value) : S.vectors.call f [v]
        = (List.range v.length).map fun i => S.call f [v.component i] := by
      unfold bitCast? at hf
      -- a cast keeps the word of each component
      split at hf <;> cases hf <;> rfl
    rw [hcall]
    refine List.ext_getElem (by simp) fun i hi hi' => ?_
    have hlt : i < (ws.map (Scalar.ofWord source)).length := by simpa using hi
    rw [List.getElem_map, List.getElem_map, List.getElem_range, component_of_lt hlt,
      List.getElem_map, hS.bitCast hf]
  construct {t width arguments} h := by
    refine Eq.trans ?_ (List.map_eq_flatMap (f := S.construct t))
    simp only [LaneArithmetic.vectors]
    split
    · -- one component fills the whole vector
      next s hone =>
      rw [hone] at h
      subst h
      rw [hone]
      rfl
    · rfl
  keepsBits hkeeps w := by
    change List.replicate 1 _ = _
    rw [hS.keepsBits hkeeps]
    rfl
  again t s := by
    refine ⟨S.construct t s, rfl, ?_⟩
    change List.replicate 1 _ = _
    rw [S.construct_of_type? (S.type?_construct t s)]
    rfl
  add a b := by
    change [S.binary .add (.int a) (.int b)] = _
    rw [hS.add]

/-! ### Shifts

The count is the second source, without any change. -/

theorem binaryForm?_of_isShift {opcode : Opcode} {operator : BinaryOperator} (hop : IsShift opcode)
    (h : operator? opcode = some operator) : binaryForm? opcode = some (.operator operator) := by
  rcases hop with rfl | rfl | rfl <;> cases h <;> rfl

/-- The second source is the count, as it is. -/
theorem value_shift {ctx : Context} {dst a b : Operand} {d : Destination} {head : OperationHead}
    {operator : BinaryOperator} (copies : List Assignment) (outside : Bool)
    (hd : (destination ctx dst).value = some d) (hop : IsShift head.opcode)
    (h : operator? head.opcode = some operator) :
    (operation ctx copies outside head [dst, a, b]).value
      = [assignment d head (.binary operator (a.source ctx d.mask head.opcode.sourceType).value
          (b.source ctx d.mask head.opcode.sourceType).value) head.opcode.resultType] := by
  change (binary _ _ _ _ _).value = _
  rw [binary_of_binaryForm? (binaryForm?_of_isShift hop h), value_toDestination hd]
  rfl

theorem eval_shift {ctx : Context} {a b : Operand} {mask : LaneMask} {t : NumberType}
    {x n : Lane → UInt32} {opcode : Opcode} {operator : BinaryOperator} (hA : A.ByLanes S)
    (h : operator? opcode = some operator)
    (ha : a.Supplies A scope m ctx mask t x) (hb : b.Supplies A scope m ctx mask t n) :
    (Expr.binary operator (a.source ctx mask t).value (b.source ctx mask t).value).eval A scope m
      = mask.lanes.map fun lane => S.binary operator (.ofWord t (x lane)) (.ofWord t (n lane)) := by
  rw [Expr.eval, ha, hb]
  exact hA.binary operator mask.lanes _ _ (.inl (isComparison_of_operator? h))

/-! ### Fields

The offset and the width are cut off, and the number they are taken from is not. -/

theorem ternaryForm?_of_isExtraction {opcode : Opcode} (hop : IsExtraction opcode) :
    ternaryForm? opcode = some .extractBits := by
  rcases hop with rfl | rfl <;> rfl

theorem value_extract {ctx : Context} {dst a b c : Operand} {d : Destination}
    {head : OperationHead} (copies : List Assignment) (outside : Bool)
    (hd : (destination ctx dst).value = some d) (hop : IsExtraction head.opcode) :
    (operation ctx copies outside head [dst, a, b, c]).value
      = [assignment d head (extractLanes ctx head.opcode d.mask a b c).value
          head.opcode.resultType] := by
  change (ternary _ _ _ _ _ _).value = _
  rw [ternary_of_ternaryForm? (ternaryForm?_of_isExtraction hop), value_toDestination hd]
  rfl

/-- A number cut off to five bits is a whole number with a sign. -/
theorem low_ofWord (hS : S.BitRules) {t : NumberType} (ht : IsWhole t) (w : UInt32) :
    S.construct .int
        (S.binary .bitAnd (.ofWord t w) (if t = .uint then .uint 31 else .int 31))
      = .int (w &&& 31) := by
  have hbits : (if t = .uint then Scalar.uint 31 else .int 31) = .ofWord t 31 := by
    rcases ht with rfl | rfl <;> rfl
  have hkeeps : KeepsBits t .int := by
    rcases ht with rfl | rfl <;> simp [KeepsBits]
  rw [hbits, hS.bitAnd ht, hS.keepsBits hkeeps]
  rfl

theorem eval_extract {ctx : Context} {a b c : Operand} {mask : LaneMask} {opcode : Opcode}
    {w o x : Lane → UInt32} (hA : A.ByLanes S) (hS : S.BitRules) (hop : IsExtraction opcode)
    (ha : ∀ lane ∈ mask.lanes, a.Supplies A scope m ctx (.single lane) opcode.sourceType w)
    (hb : ∀ lane ∈ mask.lanes, b.Supplies A scope m ctx (.single lane) opcode.sourceType o)
    (hc : ∀ lane ∈ mask.lanes, c.Supplies A scope m ctx (.single lane) opcode.sourceType x) :
    (extractLanes ctx opcode mask a b c).value.eval A scope m
      = mask.lanes.map fun lane => S.call .bitfieldExtract
          [.ofWord opcode.resultType (x lane), .int (o lane &&& 31), .int (w lane &&& 31)] := by
  have ht := isWhole_of_isExtraction hop
  have htypes : opcode.sourceType = opcode.resultType := by
    rcases hop with rfl | rfl <;> rfl
  -- each source is a word in the lane that is extracted
  have hlane {operand : Operand} {words : Lane → UInt32} {lane : Lane}
      (h : operand.Supplies A scope m ctx (.single lane) opcode.sourceType words) :
      (operand.source ctx (.single lane) opcode.sourceType).value.eval A scope m
        = [.ofWord opcode.resultType (words lane)] := by
    rw [h, LaneMask.lanes_single, htypes]
    rfl
  refine eval_extractLanes hA (fun lane _ => ?_) fun lane hmem => ?_
  · rw [S.type?_bitfieldExtract]
    exact Scalar.type?_ofWord ht.ne_double _
  · rw [eval_extractValue hA _ (hlane (ha lane hmem)) (hlane (hb lane hmem))
      (hlane (hc lane hmem)), low_ofWord hS ht, low_ofWord hS ht]

end

/-! ### What the registers decide

The operator and the rules for single components are put together for a mask. -/

/-- **The words in the registers decide whether a shift or a field is defined.** A shift uses the
whole word of its last source as the count. The rules say what comes out, and it is what the
operation gives, exactly if this word is below 32. A field uses the lowest five bits of its offset
and its width, and the same holds exactly if these add up to 32 at most. -/
theorem shift_and_extract_settled_iff {ctx : Context} (copies : List Assignment) (outside : Bool)
    (head : OperationHead) {dst : Operand} {d : Destination}
    (hd : (destination ctx dst).value = some d) :
    (IsShift head.opcode → ∀ a b : Operand, ∃ e operator,
      (operation ctx copies outside head [dst, a, b]).value
        = [assignment d head e head.opcode.resultType] ∧
      (∀ A S scope m x n, Arithmetic.ByLanes A S →
        a.Supplies A scope m ctx d.mask head.opcode.sourceType x →
        b.Supplies A scope m ctx d.mask head.opcode.sourceType n →
        e.eval A scope m = d.mask.lanes.map fun lane => S.binary operator
          (.ofWord head.opcode.resultType (x lane)) (.ofWord head.opcode.resultType (n lane))) ∧
      ∀ x n, (∀ S : LaneArithmetic, S.BitRules →
        S.binary operator (.ofWord head.opcode.resultType x) (.ofWord head.opcode.resultType n)
          = .ofWord head.opcode.resultType (shifted head.opcode x n)) ↔ n.toNat < 32) ∧
    (IsExtraction head.opcode → ∀ a b c : Operand, ∃ e,
      (operation ctx copies outside head [dst, a, b, c]).value
        = [assignment d head e head.opcode.resultType] ∧
      (∀ A S scope m w o x, Arithmetic.ByLanes A S → S.BitRules →
        (∀ lane ∈ d.mask.lanes, a.Supplies A scope m ctx (.single lane) head.opcode.sourceType w) →
        (∀ lane ∈ d.mask.lanes, b.Supplies A scope m ctx (.single lane) head.opcode.sourceType o) →
        (∀ lane ∈ d.mask.lanes, c.Supplies A scope m ctx (.single lane) head.opcode.sourceType x) →
        e.eval A scope m = d.mask.lanes.map fun lane => S.call .bitfieldExtract
          [.ofWord head.opcode.resultType (x lane), .int (o lane &&& 31), .int (w lane &&& 31)]) ∧
      ∀ w o x, (∀ S : LaneArithmetic, S.BitRules →
        S.call .bitfieldExtract
            [.ofWord head.opcode.resultType x, .int (o &&& 31), .int (w &&& 31)]
          = .ofWord head.opcode.resultType (extracted head.opcode w o x)) ↔
        o.toNat % 32 + w.toNat % 32 ≤ 32) := by
  constructor
  · intro hop a b
    -- shifts have one type throughout
    obtain ⟨operator, hoperator⟩ : ∃ operator, operator? head.opcode = some operator := by
      rcases hop with hop | hop | hop <;> rw [hop] <;> exact ⟨_, rfl⟩
    have htypes : head.opcode.sourceType = head.opcode.resultType := by
      rcases hop with hop | hop | hop <;> rw [hop] <;> rfl
    refine ⟨_, operator, value_shift copies outside hd hop hoperator,
      fun A S scope m x n hA ha hb => ?_, LaneArithmetic.shift_eq_iff hop hoperator⟩
    rw [← htypes]
    exact eval_shift hA hoperator ha hb
  · intro hop a b c
    exact ⟨_, value_extract copies outside hd hop,
      fun A S scope m w o x hA hS ha hb hc => eval_extract hA hS hop ha hb hc,
      LaneArithmetic.extract_eq_iff hop⟩

/-- Temporary registers that hold the same word in all lanes. -/
def shiftMemory : Memory := fun p =>
  if p.name = .register .temp 1 then 3
  else if p.name = .register .temp 2 then 33
  else if p.name = .register .temp 3 then 4
  else 31

/-- An operation of which nothing is known but its opcode. -/
def plainHead (opcode : Opcode) : OperationHead := ⟨opcode, 0, false, false, [], none⟩

/-- All lanes of a temporary register. -/
def wholeTemp (number : UInt64) : Operand := tempOperand number (.swizzle .x .y .z .w)

theorem supplies_wholeTemp {S : LaneArithmetic} (hS : S.BitRules) (number : UInt64)
    {mask : LaneMask} (hmask : mask ≠ 0) {t : NumberType} (ht : t ≠ .double) :
    (wholeTemp number).Supplies S.vectors (contextOf bareContainer).scope shiftMemory
      (contextOf bareContainer) mask t
      fun lane => shiftMemory ⟨.register .temp number.toNat, 0, perLane .x .y .z .w lane⟩ :=
  supplies_of_denotes (lawful_vectors hS) (declares_scope _)
    (.register (o := wholeTemp number) rfl (Components.picks_swizzle ..) rfl)
    (Operand.hasWordPositions_of_arrayElement?_eq_none rfl) hmask ht

/-- Two lanes that hold three are shifted by four. -/
theorem shift_and_extract_settled_iff_four :
    ∃ d e, (operation (contextOf bareContainer) [] true (plainHead .ishl)
        [tempOperand 0 (.mask 0b0011), wholeTemp 1, wholeTemp 3]).value
          = [assignment d (plainHead .ishl) e .int] ∧
      e.eval (bitsOr 0).vectors (contextOf bareContainer).scope shiftMemory
        = [.int 48, .int 48] := by
  have hrules := bitRules_bitsOr 0
  have hd : (destination (contextOf bareContainer) (tempOperand 0 (.mask 0b0011))).value
      = some ⟨(Expr.name (.register .temp 0)).select [.x, .y], .float, 0b0011⟩ := rfl
  obtain ⟨hshift, -⟩ := shift_and_extract_settled_iff [] true (plainHead .ishl) hd
  obtain ⟨e, operator, hvalue, heval, hiff⟩ := hshift (.inl rfl) (wholeTemp 1) (wholeTemp 3)
  refine ⟨_, e, hvalue, ?_⟩
  rw [heval _ _ _ _ _ _ (byLanes_vectors _) (supplies_wholeTemp hrules 1 (by decide) nofun)
    (supplies_wholeTemp hrules 3 (by decide) nofun)]
  have hlanes : LaneMask.lanes 0b0011 = [.x, .y] := by decide
  have hfour : (bitsOr 0).binary operator (.int 3) (.int 4) = .int 48 :=
    (hiff 3 4).2 (by decide) _ hrules
  rw [hlanes]
  exact congrArg₂ (fun s s' => [s, s']) hfour hfour

/-- A shift by 33, and a field of 31 bits from bit 31 on. The operations give six and zero, but
arithmetic that follows the rules may give nine for both. -/
theorem not_settled_out_of_range :
    (bitsOr 9).BitRules ∧
    (∃ d e, (operation (contextOf bareContainer) [] true (plainHead .ishl)
        [tempOperand 0 (.mask 0b0001), wholeTemp 1, wholeTemp 2]).value
          = [assignment d (plainHead .ishl) e .int] ∧
      e.eval (bitsOr 9).vectors (contextOf bareContainer).scope shiftMemory
        ≠ [.int (shifted .ishl 3 33)]) ∧
    ∃ d e, (operation (contextOf bareContainer) [] true (plainHead .ubfe)
        [tempOperand 0 (.mask 0b0001), wholeTemp 4, wholeTemp 4, wholeTemp 4]).value
          = [assignment d (plainHead .ubfe) e .uint] ∧
      e.eval (bitsOr 9).vectors (contextOf bareContainer).scope shiftMemory
        ≠ [.uint (extracted .ubfe 31 31 31)] := by
  refine ⟨bitRules_bitsOr 9, ⟨_, _, rfl, ?_⟩, ⟨_, _, rfl, ?_⟩⟩
  · decide +kernel
  · decide +kernel

end Glsl
end ShaderBytecode
