import ShaderBytecode.Proofs.Glsl.LaneNumbers

/-!
# Operations work lane by lane

An operation on the components of registers is lowered for the lanes of its mask. Masks of one lane
and of several are lowered differently: a comparison is an operator in one and a function in the
other, and bits are extracted lane by lane.

    exists_laneValues_operation : what operations assign has lane values
    lane_wise                   : running an operation for a mask leaves in each lane what running
                                  it for this lane alone does

The lanes of one operation cannot see each other's results. The sources are evaluated before the
destination is written, also where one register is both.
-/

namespace ShaderBytecode

open Glsl

/-- The operand with a mask. -/
def Operand.masked : Operand → LaneMask → Operand
  | .mk head indices literals, mask =>
    .mk { head with components := .four (.mask mask) } indices literals

namespace Glsl

section

variable {A : Arithmetic} {S : LaneArithmetic} {scope : Scope} {m : Memory} {whole : LaneMask}
  {a b : LaneMask → Expr} {u v : Lane → Scalar}

/-! ### Operations with one or two sources

Operations are taken by their forms, of which there are fewer than of operations. The forms in which
lanes are combined are the dot products only. -/

/-- An operation that computes each lane by itself, if it has a number of sources. -/
def isComponentWise (opcode : Opcode) : (sources : Nat) → Bool
  | 1 => (unaryValue? opcode 1 .zero).isSome
  | 2 =>
    match binaryForm? opcode with
    | none | some (.dot _) => false
    | _ => true
  | 3 => (ternaryForm? opcode).isSome
  | _ => false

theorem exists_laneValues_unaryValue? (hA : A.ByLanes S) {opcode : Opcode}
    (hop : (unaryValue? opcode 1 .zero).isSome) (ha : LaneValues A scope m whole a u) :
    ∃ e v, (∀ part : LaneMask, unaryValue? opcode part.width (a part) = some (e part)) ∧
      LaneValues A scope m whole e v := by
  unfold unaryValue? at hop
  dsimp only at hop
  split at hop
  case h_1 | h_2 => exact ⟨a, u, fun _ => rfl, ha⟩ -- copies
  case h_8 | h_9 => exact ⟨_, _, fun _ => rfl, ha.scalarLeft hA rfl rfl⟩ -- reciprocals
  case h_13 => -- the magnitude is rounded down and gets its sign back
    exact ⟨_, _, fun _ => rfl, (ha.call hA rfl).binary hA rfl ((ha.call hA rfl).call hA rfl)⟩
  case h_14 | h_15 | h_16 | h_17 | h_18 | h_19 | h_20 | h_21 | h_22 | h_23 => -- conversions
    exact ⟨_, _, fun _ => rfl, ha.construct hA _⟩
  case h_30 | h_31 => exact ⟨_, _, fun _ => rfl, ha.group.unary hA _⟩ -- complement, negation
  case h_33 | h_34 => -- bits are counted, or the lowest is found
    exact ⟨_, _, fun _ => rfl, (ha.call hA rfl).construct hA _⟩
  case h_35 => -- the highest bit
    exact ⟨_, _, fun _ => rfl, ((ha.call hA rfl).call hA rfl).construct hA _⟩
  case h_36 => -- the highest bit that differs from the sign
    have hsigns : LaneValues A scope m whole
        (fun part => .group (.binary .shiftRight (a part) (.integer 31))) _ :=
      (ha.scalarRight hA rfl rfl).group
    exact ⟨_, _, fun _ => rfl,
      ((((ha.binary hA rfl hsigns).construct hA _).call hA rfl).call hA rfl).construct hA _⟩
  case h_37 => cases hop
  all_goals exact ⟨_, _, fun _ => rfl, ha.call hA rfl⟩ -- single functions

/-- A form computes each lane by itself. -/
def BinaryForm.isLaneWise : BinaryForm → Bool
  | .dot _ => false
  | .function f => f.isLaneWise
  | .compare op f => comparison? f == some op
  | .operator op => !op.isComparison

theorem isComparison_of_operator? {opcode : Opcode} {operator : BinaryOperator}
    (h : operator? opcode = some operator) : operator.isComparison = false := by
  unfold operator? at h
  split at h <;> cases h <;> rfl

/-- Only dot products combine lanes. -/
theorem isLaneWise_of_binaryForm? {opcode : Opcode} {form : BinaryForm}
    (h : binaryForm? opcode = some form) (hdot : ∀ count, form ≠ .dot count) :
    form.isLaneWise := by
  unfold binaryForm? at h
  split at h
  case h_1 | h_2 | h_3 => -- dot products
    cases h
    exact absurd rfl (hdot _)
  case h_30 => -- operators
    obtain ⟨operator, hoperator, rfl⟩ := Option.map_eq_some_iff.1 h
    rw [BinaryForm.isLaneWise, isComparison_of_operator? hoperator]
    rfl
  all_goals
    cases h
    rfl

theorem exists_laneValues_binary (hA : A.ByLanes S) {form : BinaryForm} (hform : form.isLaneWise)
    (ha : LaneValues A scope m whole a u) (hb : LaneValues A scope m whole b v) :
    ∃ w, LaneValues A scope m whole (fun part => form.value part.width (a part) (b part)) w := by
  cases form with
  | dot => cases hform
  | function f => exact ⟨_, ha.call₂ hA hform hb⟩
  | compare operator f =>
    have hf : comparison? f = some operator := beq_iff_eq.1 hform
    exact LaneValues.choose hA hf ha hb (.fill hA (s := .uint 0xFFFFFFFF) rfl rfl)
      (.fill hA (s := .uint 0) rfl rfl) (fun _ _ => hb.single) (fun _ _ _ _ => rfl)
      fun _ _ _ _ => rfl
  | operator operator => exact ⟨_, ha.binary hA (by simpa [BinaryForm.isLaneWise] using hform) hb⟩

/-! ### Operations with three sources

A choice is a comparison with zero, and has a single lane lowered like one. Bits are extracted one
lane at a time, because their counts must be scalars. -/

theorem exists_laneValues_chooseValue (hA : A.ByLanes S) {condition : LaneMask → Expr}
    {w : Lane → Scalar} (hcondition : LaneValues A scope m whole condition w)
    (hyes : LaneValues A scope m whole a u) (hno : LaneValues A scope m whole b v) :
    ∃ w, LaneValues A scope m whole
      (fun part => chooseValue part.width (condition part) (a part) (b part)) w :=
  have hnotEqual : comparison? .notEqual = some .notEqual := rfl
  LaneValues.choose hA hnotEqual hcondition (.fill hA (s := .uint 0) rfl rfl) hyes hno
    (fun _ _ _ _ => rfl) (fun _ _ => hyes.single) fun _ _ => hno.single

theorem value_mapM (f : α → Traced β) (l : List α) :
    (l.mapM f).value = l.map fun a => (f a).value := by
  induction l with
  | nil => rfl
  | cons a l ih => rw [List.mapM_cons, Traced.value_bind, Traced.value_bind, ih]; rfl

/-- The lowest five bits of a number. -/
theorem eval_low (hA : A.ByLanes S) (type : NumberType) {e : Expr} {s : Scalar}
    (he : e.eval A scope m = [s]) :
    (Expr.construct ⟨.int, 1⟩
      [.binary .bitAnd e (if type = .uint then .unsigned 31 else .integer 31)]).eval A scope m
        = [S.construct .int (S.binary .bitAnd s (if type = .uint then .uint 31 else .int 31))] := by
  have hbits : (if type = .uint then Expr.unsigned 31 else .integer 31).eval A scope m
      = [if type = .uint then .uint 31 else .int 31] := by
    split <;> rfl
  -- the mask of five bits is a number of the source's type
  generalize (if type = .uint then Scalar.uint 31 else .int 31) = bits at hbits ⊢
  have hand : (Expr.binary .bitAnd e (if type = .uint then .unsigned 31 else .integer 31)).eval
      A scope m = [S.binary .bitAnd s bits] := by
    rw [Expr.eval, he, hbits]
    exact hA.binary .bitAnd [.x] (fun _ => s) (fun _ => bits) (.inl rfl)
  rw [Expr.eval, Expr.evalAll, Expr.evalAll, hand]
  exact hA.construct .int [.x] (fun _ => S.binary .bitAnd s bits) rfl

/-- The bits of a number that are extracted. -/
theorem eval_extractValue (hA : A.ByLanes S) (type : NumberType) {width offset value : Expr}
    {w o n : Scalar} (hwidth : width.eval A scope m = [w]) (hoffset : offset.eval A scope m = [o])
    (hvalue : value.eval A scope m = [n]) :
    (extractValue type width offset value).eval A scope m
      = [S.call .bitfieldExtract
          [n, S.construct .int (S.binary .bitAnd o (if type = .uint then .uint 31 else .int 31)),
            S.construct .int
              (S.binary .bitAnd w (if type = .uint then .uint 31 else .int 31))]] := by
  rw [extractValue, Expr.eval]
  simp only [Expr.evalAll, hvalue, eval_low hA type hoffset, eval_low hA type hwidth]
  have hcall : Function.bitfieldExtract.isLaneWise := rfl
  exact hA.call hcall (List.cons_ne_nil (fun _ => n) [fun _ => _, fun _ => _]) [.x]

/-- The bits of a number that are extracted are a number of its type. -/
theorem isNumber_extractValue (hA : A.ByLanes S) {type : NumberType} {width offset value : Expr}
    {t t' : NumberType} (hwidth : IsNumber A scope m width t)
    (hoffset : IsNumber A scope m offset t')
    (hvalue : IsNumber A scope m value type) :
    IsNumber A scope m (extractValue type width offset value) type := by
  obtain ⟨_, hwidth, -⟩ := hwidth
  obtain ⟨_, hoffset, -⟩ := hoffset
  obtain ⟨n, hvalue, htype⟩ := hvalue
  exact ⟨_, eval_extractValue hA type hwidth hoffset hvalue,
    (S.type?_bitfieldExtract n _ _).trans htype⟩

/-- Bits are extracted lane by lane, and put together if there are several lanes. -/
theorem eval_extractLanes (hA : A.ByLanes S) {ctx : Context} {opcode : Opcode} {mask : LaneMask}
    {x y z : Operand} (htype : ∀ lane ∈ mask.lanes, (v lane).type? = some opcode.resultType)
    (hv : ∀ lane ∈ mask.lanes, (extractValue opcode.resultType
      (x.source ctx (.single lane) opcode.sourceType).value
      (y.source ctx (.single lane) opcode.sourceType).value
      (z.source ctx (.single lane) opcode.sourceType).value).eval A scope m = [v lane]) :
    (extractLanes ctx opcode mask x y z).value.eval A scope m = mask.lanes.map v := by
  simp only [extractLanes, Traced.value_bind, value_mapM, Traced.value_pure]
  split
  · next hone =>
    obtain ⟨lane, hlane, rfl⟩ := List.map_eq_singleton_iff.1 hone
    rw [hlane] at hv ⊢
    exact hv lane (List.mem_singleton.2 rfl)
  · rw [Traced.value_pure, List.length_map]
    exact eval_construct_lanes hA mask.lanes htype hv

/-- A lane of a source. -/
theorem isNumber_source {c : Container} {o : Operand} (hA : A.ByLanes S)
    (hscope : scope.Fits (contextOf c)) (ho : o.IsLaneSource (contextOf c) scope whole)
    (type : NumberType) {lane : Lane} (hlane : lane ∈ whole.lanes) :
    IsNumber A scope m (o.source (contextOf c) (.single lane) type).value type := by
  obtain ⟨v, hv, htype⟩ := laneNumbers_source (m := m) hA hscope ho type
  exact ⟨v lane, hv.single (LaneMask.isPart_single hlane) (LaneMask.lanes_single lane), htype lane⟩

theorem exists_laneValues_extractLanes {c : Container} {x y z : Operand} (hA : A.ByLanes S)
    (hscope : scope.Fits (contextOf c)) {opcode : Opcode}
    (htypes : opcode.sourceType = opcode.resultType)
    (hx : x.IsLaneSource (contextOf c) scope whole) (hy : y.IsLaneSource (contextOf c) scope whole)
    (hz : z.IsLaneSource (contextOf c) scope whole) :
    ∃ v, LaneValues A scope m whole
      (fun part => (extractLanes (contextOf c) opcode part x y z).value) v := by
  let source (o : Operand) (lane : Lane) :=
    (o.source (contextOf c) (.single lane) opcode.sourceType).value
  let e (lane : Lane) :=
    extractValue opcode.resultType (source x lane) (source y lane) (source z lane)
  -- each lane is lowered by itself, and is a number
  have he : ∀ lane ∈ whole.lanes, IsNumber A scope m (e lane) opcode.resultType := by
    intro lane hlane
    refine isNumber_extractValue hA (isNumber_source hA hscope hx _ hlane)
      (isNumber_source hA hscope hy _ hlane) ?_
    rw [← htypes]
    exact isNumber_source hA hscope hz _ hlane
  choose! v hv htype using he
  exact ⟨v, fun part hpart => eval_extractLanes hA
    (fun lane hlane => htype lane (hpart.subset hlane))
    fun lane hlane => hv lane (hpart.subset hlane)⟩

theorem exists_laneValues_ternaryValue {c : Container} {x y z : Operand} (hA : A.ByLanes S)
    (hscope : scope.Fits (contextOf c)) {opcode : Opcode} {form : TernaryForm}
    (hform : ternaryForm? opcode = some form)
    (hx : x.IsLaneSource (contextOf c) scope whole) (hy : y.IsLaneSource (contextOf c) scope whole)
    (hz : z.IsLaneSource (contextOf c) scope whole) :
    ∃ v, LaneValues A scope m whole
      (fun part => (ternaryValue (contextOf c) opcode form part x y z).value) v := by
  have hsource {o : Operand} (ho : o.IsLaneSource (contextOf c) scope whole) (type : NumberType) :
      ∃ v, LaneValues A scope m whole (fun part => (o.source (contextOf c) part type).value) v := by
    obtain ⟨v, hv, -⟩ := laneNumbers_source (m := m) hA hscope ho type
    exact ⟨v, hv⟩
  cases form with
  | fusedMultiplyAdd =>
    obtain ⟨u, hu⟩ := hsource hx opcode.sourceType
    obtain ⟨v, hv⟩ := hsource hy opcode.sourceType
    obtain ⟨w, hw⟩ := hsource hz opcode.sourceType
    exact ⟨_, hu.call₃ (f := .fma) hA rfl hv hw⟩
  | multiplyAdd =>
    -- a product and a sum, one after the other
    obtain ⟨u, hu⟩ := hsource hx opcode.sourceType
    obtain ⟨v, hv⟩ := hsource hy opcode.sourceType
    obtain ⟨w, hw⟩ := hsource hz opcode.sourceType
    have hproduct : LaneValues A scope m whole (fun part => .binary .multiply
        (x.source (contextOf c) part opcode.sourceType).value
        (y.source (contextOf c) part opcode.sourceType).value) _ :=
      hu.binary hA rfl hv
    have hadd : BinaryOperator.add.isComparison = false := rfl
    exact ⟨_, hproduct.binary hA hadd hw⟩
  | choose =>
    obtain ⟨u, hu⟩ := hsource hx .uint
    obtain ⟨v, hv⟩ := hsource hy opcode.resultType
    obtain ⟨w, hw⟩ := hsource hz opcode.resultType
    exact exists_laneValues_chooseValue hA hu hv hw
  | extractBits =>
    refine exists_laneValues_extractLanes hA hscope ?_ hx hy hz
    unfold ternaryForm? at hform
    split at hform <;> first | rfl | cases hform

/-! ### Operations

An operation assigns what it computes, so its lowering is one assignment with a value that is known
for each part of the mask. -/

theorem value_toDestination {ctx : Context} {dst : Operand} {d : Destination}
    {statements : Destination → Traced (List Statement)}
    (hd : (destination ctx dst).value = some d) :
    (toDestination ctx dst statements).value = (statements d).value := by
  rw [toDestination, Traced.value_bind, hd]

theorem exists_binaryForm_of_isComponentWise {opcode : Opcode} (h : isComponentWise opcode 2) :
    ∃ form, binaryForm? opcode = some form ∧ form.isLaneWise := by
  cases hform : binaryForm? opcode with
  | none => simp [isComponentWise, hform] at h
  | some form =>
    refine ⟨form, rfl, isLaneWise_of_binaryForm? hform fun count hdot => ?_⟩
    simp [isComponentWise, hform, hdot] at h

theorem sourceMask_of_isLaneWise {form : BinaryForm} (h : form.isLaneWise) (mask : LaneMask) :
    form.sourceMask mask = mask := by
  cases form with
  | dot => cases h
  | _ => rfl

/-- An operation with a form has no other lowering. -/
theorem binary_of_binaryForm? {ctx : Context} {head : OperationHead} {dst a b : Operand}
    {form : BinaryForm} (h : binaryForm? head.opcode = some form) :
    binary ctx head dst a b = toDestination ctx dst fun d => do
      let mask := form.sourceMask d.mask
      let x ← a.source ctx mask head.opcode.sourceType
      let y ← b.source ctx mask head.opcode.sourceType
      return [assignment d head (form.value d.width x y) head.opcode.resultType] := by
  unfold binary
  split
  case h_1 hop | h_2 hop | h_3 hop =>
    rw [hop] at h
    cases h
  · rw [h]

theorem ternary_of_ternaryForm? {ctx : Context} {head : OperationHead} {dst a b c : Operand}
    {form : TernaryForm} (h : ternaryForm? head.opcode = some form) :
    ternary ctx head dst a b c = toDestination ctx dst fun d => do
      let value ← ternaryValue ctx head.opcode form d.mask a b c
      return [assignment d head value head.opcode.resultType] := by
  unfold ternary
  split
  case h_1 hop | h_2 hop | h_3 hop | h_4 hop | h_5 hop =>
    rw [hop] at h
    cases h
  · rw [h]

/-- What an operation assigns has lane values. -/
theorem exists_laneValues_operation (hA : A.ByLanes S) (m : Memory) {c : Container}
    (copies : List Assignment) (outside : Bool) {head : OperationHead} (dst : Operand)
    {sources : List Operand} (hscope : scope.Fits (contextOf c))
    (hop : isComponentWise head.opcode sources.length)
    (hsources : ∀ o ∈ sources, o.IsLaneSource (contextOf c) scope whole) :
    ∃ e v, LaneValues A scope m whole e v ∧ ∀ {part : LaneMask} {d : Destination},
      (destination (contextOf c) (dst.masked part)).value = some d → d.mask = part →
        (operation (contextOf c) copies outside head (dst.masked part :: sources)).value
          = [assignment d head (e part) head.opcode.resultType] := by
  match sources, hop, hsources with
  -- one source
  | [a], hop, hsources =>
    obtain ⟨u, hu, -⟩ := laneNumbers_source (m := m) hA hscope
      (hsources a List.mem_cons_self) head.opcode.sourceType
    obtain ⟨e, v, he, hv⟩ := exists_laneValues_unaryValue? hA hop hu
    refine ⟨e, v, hv, fun {part d} hd hmask => ?_⟩
    subst hmask
    change (unary _ _ _ _).value = _
    rw [unary, value_toDestination hd]
    simp only [Traced.value_bind]
    have hvalue := he d.mask
    rw [Destination.width, hvalue]
    rfl
  -- two sources
  | [a, b], hop, hsources =>
    obtain ⟨u, hu, -⟩ := laneNumbers_source (m := m) hA hscope
      (hsources a List.mem_cons_self) head.opcode.sourceType
    obtain ⟨v, hv, -⟩ := laneNumbers_source (m := m) hA hscope
      (hsources b (List.mem_cons_of_mem _ List.mem_cons_self)) head.opcode.sourceType
    obtain ⟨form, hform, hlaneWise⟩ := exists_binaryForm_of_isComponentWise hop
    obtain ⟨w, hw⟩ := exists_laneValues_binary hA hlaneWise hu hv
    refine ⟨_, w, hw, fun {part d} hd hmask => ?_⟩
    subst hmask
    change (binary _ _ _ _ _).value = _
    rw [binary_of_binaryForm? hform, value_toDestination hd,
      sourceMask_of_isLaneWise hlaneWise]
    rfl
  -- three sources
  | [a, b, c], hop, hsources =>
    obtain ⟨form, hform⟩ := Option.isSome_iff_exists.1 hop
    obtain ⟨v, hv⟩ := exists_laneValues_ternaryValue (m := m) hA hscope hform
      (hsources a (by simp)) (hsources b (by simp)) (hsources c (by simp))
    refine ⟨_, v, hv, fun {part d} hd hmask => ?_⟩
    subst hmask
    change (ternary _ _ _ _ _ _).value = _
    rw [ternary_of_ternaryForm? hform, value_toDestination hd]
    rfl

/-! ### Running operations

Assigning to components writes the words of those components. What a lane gets is told by its value
alone, once saturation and conversion have been done lane by lane. -/

theorem registerStorage_of_temp_or_output (ctx : Context) {file : RegisterFile}
    (h : file = .temp ∨ file = .output) (indices : List IndexPart) :
    ∃ n type, registerStorage ctx file indices = some (pure ⟨.name n, type⟩) := by
  rcases h with rfl | rfl <;> exact ⟨_, _, rfl⟩

theorem exists_destination_masked (ctx : Context) {dst : Operand}
    (h : dst.file = .temp ∨ dst.file = .output) :
    ∃ n type, dst.register ctx = some ⟨n, none, none⟩ ∧ ∀ part : LaneMask,
      (destination ctx (dst.masked part)).value
        = some ⟨(Expr.name n).select part.lanes, type, part⟩ := by
  obtain ⟨n, type, hstorage⟩ :=
    registerStorage_of_temp_or_output ctx h (dst.indices.map (Index.part ctx))
  refine ⟨n, type, by rw [Operand.register, hstorage]; rfl, fun part => ?_⟩
  obtain ⟨head, indices, literals⟩ := dst
  rw [value_destination]
  change (registerStorage ctx head.file (indices.toList.map (Index.part ctx))).map _ = _
  rw [show registerStorage ctx head.file (indices.toList.map (Index.part ctx)) = _ from hstorage]
  simp only [Option.map_some, Operand.masked, Operand.components, Operand.head, selected_mask]
  rfl

theorem exists_laneValues_saturated (hA : A.ByLanes S) (saturate : Bool) (type : NumberType)
    (ha : LaneValues A scope m whole a u) :
    ∃ v, LaneValues A scope m whole
      (fun part => Destination.saturated saturate type (a part)) v := by
  unfold Destination.saturated
  split
  · exact ⟨_, ha.clamp hA⟩
  · exact ⟨u, ha⟩

/-- Running the assignment of lane values leaves a word in each lane that does not depend on which
other lanes are assigned to. -/
theorem exists_words (hA : A.ByLanes S) (n : Name) (type result : NumberType)
    (head : OperationHead) (ha : LaneValues A scope m whole a u) :
    ∃ words : Lane → UInt32, ∀ part : LaneMask, part.IsPart whole →
      executeAll A scope m
          [assignment ⟨(Expr.name n).select part.lanes, type, part⟩ head (a part) result]
        = .running (m.update (part.lanes.map fun lane => (⟨n, 0, lane⟩, words lane))) := by
  -- saturation and conversion keep lane values
  obtain ⟨v, hv⟩ := exists_laneValues_saturated hA head.saturate result ha
  obtain ⟨w, hw, -⟩ := hv.convert hA result type
  refine ⟨fun lane => (w lane).word, fun part hpart => ?_⟩
  have hsome : part.lanes.isEmpty = false := by simpa using hpart.lanes_ne_nil
  have htarget : ((Expr.name n).select part.lanes).target? = some ⟨n, none, some part.lanes⟩ := by
    rw [Expr.select, hsome]
    rfl
  have hvalue := hw part hpart
  simp only [executeAll, assignment, Statement.execute, Statement.updates, Assignment.updates,
    Destination.assign, Destination.width, htarget, hvalue, Option.toList_some, List.flatMap_cons,
    List.flatMap_nil, List.append_nil, Target.places, Option.map_none, Option.getD_none,
    List.map_map, List.zip_map']
  rfl

/-- **Operations work lane by lane.** An operation that computes each lane by itself, with a
temporary register or an output as its destination and with registers or literals as its sources,
leaves in every lane of its mask the word that it leaves there with the mask of this lane alone. -/
theorem lane_wise {c : Container} {copies : List Assignment} {outside : Bool}
    {head : OperationHead} {dst : Operand} {sources : List Operand} {mask : LaneMask} {lane : Lane}
    (hA : A.ByLanes S) (hscope : scope.Fits (contextOf c))
    (hop : isComponentWise head.opcode sources.length)
    (hdst : dst.file = .temp ∨ dst.file = .output)
    (hsources : ∀ o ∈ sources, o.IsLaneSource (contextOf c) scope mask)
    (hlane : lane ∈ mask.lanes) :
    ∃ n after alone, dst.register (contextOf c) = some ⟨n, none, none⟩ ∧
      executeAll A scope m
        (operation (contextOf c) copies outside head (dst.masked mask :: sources)).value
          = .running after ∧
      executeAll A scope m
        (operation (contextOf c) copies outside head (dst.masked (.single lane) :: sources)).value
          = .running alone ∧
      after ⟨n, 0, lane⟩ = alone ⟨n, 0, lane⟩ := by
  obtain ⟨n, type, hregister, hdestination⟩ := exists_destination_masked (contextOf c) hdst
  obtain ⟨e, v, hv, hoperation⟩ := exists_laneValues_operation hA m copies outside dst
    hscope hop hsources
  -- the words do not depend on the part of the mask that is assigned to
  obtain ⟨words, hwords⟩ := exists_words hA n type head.opcode.resultType head hv
  have hrun (part : LaneMask) (hpart : part.IsPart mask) : executeAll A scope m
      (operation (contextOf c) copies outside head (dst.masked part :: sources)).value
        = .running (m.update (part.lanes.map fun lane => (⟨n, 0, lane⟩, words lane))) := by
    rw [hoperation (hdestination part) rfl]
    exact hwords part hpart
  have hmask : mask.IsPart mask := LaneMask.isPart_self <| by
    rintro rfl
    cases hlane
  have hplace : Function.Injective fun lane => (⟨n, 0, lane⟩ : Place) := fun lane lane' h =>
    congrArg Place.lane h
  refine ⟨n, _, _, hregister, hrun mask hmask, hrun _ (LaneMask.isPart_single hlane), ?_⟩
  rw [Memory.update_apply_of_mem hplace words hlane, LaneMask.lanes_single,
    Memory.update_apply_of_mem hplace words (List.mem_singleton.2 rfl)]

end

/-! ### A choice in two lanes

The example has a mask with a gap, a literal for all lanes and a source that is one component. It is
lowered with a function for both lanes and with an operator for one. -/

/-- The variables of registers as they are declared. -/
def Context.variables (ctx : Context) : Scope
  | .register .input number => ⟨ctx.inputType (.ofNat number), 4⟩
  | .register .output number => ⟨ctx.outputType (.ofNat number), 4⟩
  | .register .unorderedAccessView _ | .register .threadGroupSharedMemory _ => ⟨.uint, 4⟩
  | .provided .sampleMask | .provided .sampleMaskIn | .provided .primitiveId
  | .provided .invocationId => ⟨.int, 1⟩
  | .provided .globalInvocationId | .provided .workGroupId | .provided .localInvocationId =>
    ⟨.uint, 3⟩
  | .provided .localInvocationIndex => ⟨.uint, 1⟩
  | .provided .tessCoord => ⟨.float, 3⟩
  | .provided .fragDepth => ⟨.float, 1⟩
  | _ => .vec4

theorem fits_variables (ctx : Context) : ctx.variables.Fits ctx := by
  intro file indices storage register h htarget
  cases file
  case null => cases h
  case input => -- of which there may be one for each vertex
    unfold registerStorage at h
    dsimp only at h
    split at h <;> cases h <;> cases htarget <;> rfl
  all_goals
    cases h
    cases htarget
    rfl

/-- A component of another type; numbers of 32 bits keep their bits. -/
def Scalar.as (t : NumberType) (s : Scalar) : Scalar :=
  if s.type? = some t then s
  else match t with
    | .double => .double s.word.toUInt64
    | t => .ofWord t s.word

theorem Scalar.type?_as (t : NumberType) (s : Scalar) : (s.as t).type? = some t := by
  unfold as
  split
  · assumption
  · cases t <;> rfl

/-- Arithmetic in which bits are cast, values are chosen and words are compared. All other functions
give back what they are given. -/
def bitArithmetic : LaneArithmetic where
  call f arguments :=
    match arguments with
    | [s] =>
      match bitCast? f with
      | some (_, target) => s.as target
      | none => s
    | [s, s'] => if (comparison? f).isSome then .truth (s.word != s'.word) else s
    | [no, yes, .truth b] => if f = .mix then if b then yes else no else no
    | s :: _ => s
    | [] => .truth false
  construct t s := s.as t
  unary _ s := s
  binary operator s s' := if operator.isComparison then .truth (s.word != s'.word) else s
  type?_construct := Scalar.type?_as
  construct_of_type? h := if_pos h
  type?_bitCast h s := by
    simp only [h]
    exact Scalar.type?_as _ s
  type?_negate _ := rfl
  type?_abs _ := rfl
  type?_bitfieldExtract s offset width := by
    cases width <;> rfl
  mix _ _ _ := rfl
  compare {f operator} h s s' := by
    refine ⟨s.word != s'.word, by simp only [h, Option.isSome_some, if_true], ?_⟩
    unfold comparison? at h
    split at h <;> cases h <;> rfl

/-- A container without any signature. -/
def bareContainer : Container := .ofPayloads (.ofBytes #[]) [] []

/-- The number one, for every lane. -/
def oneOperand : Operand :=
  .mk ⟨0, .immediate32, .one, .none, .full, false⟩ .nil (some (.bits32 [0x3F800000]))

/-- The first and the last lane are chosen from one and the components of a register. -/
def choiceSources : List Operand :=
  [tempOperand 1 (.swizzle .x .y .z .w), oneOperand, tempOperand 2 (.single .y)]

theorem isLaneSource_choiceSources : ∀ o ∈ choiceSources,
    o.IsLaneSource (contextOf bareContainer) (contextOf bareContainer).variables 0b1001 := by
  have hregister (number : UInt64) {selection : ComponentSelection} {pick : Lane → Lane}
      (hpick : (Components.four selection).Picks pick) :
      (tempOperand number selection).IsLaneSource (contextOf bareContainer)
        (contextOf bareContainer).variables 0b1001 :=
    .register (o := tempOperand number selection) hpick rfl rfl fun lane _ => (pick lane).isLt
  simp only [choiceSources, List.forall_mem_cons]
  exact ⟨hregister 1 (Components.picks_swizzle ..), .literals (.inl rfl) rfl (.inl rfl),
    hregister 2 (Components.picks_single .y), nofun⟩

theorem lane_wise_choice :
    ∃ n after alone, (tempOperand 0 (.mask 0)).register (contextOf bareContainer)
        = some ⟨n, none, none⟩ ∧
      executeAll bitArithmetic.vectors (contextOf bareContainer).variables countedMemory
        (operation (contextOf bareContainer) [] true ⟨.movc, 0, true, false, [], none⟩
          ((tempOperand 0 (.mask 0)).masked 0b1001 :: choiceSources)).value = .running after ∧
      executeAll bitArithmetic.vectors (contextOf bareContainer).variables countedMemory
        (operation (contextOf bareContainer) [] true ⟨.movc, 0, true, false, [], none⟩
          ((tempOperand 0 (.mask 0)).masked (.single .w) :: choiceSources)).value
            = .running alone ∧
      after ⟨n, 0, .w⟩ = alone ⟨n, 0, .w⟩ :=
  lane_wise (byLanes_vectors bitArithmetic) (fits_variables _) (by decide) (.inl rfl)
    isLaneSource_choiceSources (by decide)

end Glsl
end ShaderBytecode
