import ShaderBytecode.Proofs.Glsl.LaneWise

/-!
# Shifts and fields of bits

Operations take the lowest five bits of a count, of an offset and of a width, whatever stands above
them. The language says what a shift gives for counts below 32, and what a field of bits is that
ends within the word. Beyond that anything may come out, which is what `BitRules` leaves open.

    LaneArithmetic.shift_eq_iff   : a shift gives what the operation does under every arithmetic
      that follows the rules ↔ the count is below 32
    LaneArithmetic.extract_eq_iff : so does a field ↔ it ends within the word

An arithmetic is a parameter of everything that is said about lanes. To say that a result is settled
is to say that it is the same for every arithmetic that follows the rules. That it is not settled is
shown by two of them that differ.
-/

namespace ShaderBytecode
namespace Glsl

/-! ### What operations give

These are the results of the instruction set, written with no regard to the language: counts are
taken modulo 32, and a field that would end behind the word ends with it. -/

/-- An operation shifts words. -/
def IsShift (opcode : Opcode) : Prop := opcode = .ishl ∨ opcode = .ishr ∨ opcode = .ushr

/-- An operation extracts bits from words. -/
def IsExtraction (opcode : Opcode) : Prop := opcode = .ubfe ∨ opcode = .ibfe

/-- A number of bits is cut off at the low end. Numbers with a sign keep it. -/
def cutLow (signed : Bool) (x : BitVec 32) (count : Nat) : BitVec 32 :=
  if signed then x.sshiftRight count else x >>> count

/-- What an operation leaves of a word that it shifts. -/
def shifted (opcode : Opcode) (x count : UInt32) : UInt32 :=
  let n := count.toNat % 32
  .ofBitVec (if opcode = .ishl then x.toBitVec <<< n else cutLow (opcode = .ishr) x.toBitVec n)

/-- What an operation extracts from a word: nothing if no bit is asked for, and all bits from the
offset on if the field is as long as what is left of the word, or longer. -/
def extracted (opcode : Opcode) (width offset x : UInt32) : UInt32 :=
  let w := width.toNat % 32
  let o := offset.toNat % 32
  .ofBitVec (if w = 0 then 0
    else if w + o < 32 then cutLow (opcode = .ibfe) (x.toBitVec <<< (32 - (w + o))) (32 - w)
    else cutLow (opcode = .ibfe) x.toBitVec o)

/-! ### What the language gives

The types decide whether the upper bits are filled with the sign. In the instruction set it is the
opcode that does. -/

/-- What a shift by fewer than 32 bits leaves of a number. -/
def shiftBits (operator : BinaryOperator) (t : NumberType) (x : UInt32) (count : Nat) : UInt32 :=
  .ofBitVec (if operator = .shiftLeft then x.toBitVec <<< count
    else cutLow (t = .int) x.toBitVec count)

/-- The bits of a number from an offset on, as a number of the same type. -/
def fieldBits (t : NumberType) (x : UInt32) (offset width : Nat) : UInt32 :=
  let field := x.toBitVec.extractLsb' offset width
  .ofBitVec (if t = .int then field.signExtend 32 else field.setWidth 32)

/-- A type of whole numbers. -/
def IsWhole (t : NumberType) : Prop := t = .int ∨ t = .uint

/-- Whole numbers are no doubles. -/
theorem IsWhole.ne_double {t : NumberType} (h : IsWhole t) : t ≠ .double := by
  rcases h with rfl | rfl <;> nofun

/-- What the language says of single components that are words. It is silent about shifts by 32 bits
and more, and about fields that end behind the last bit. -/
structure LaneArithmetic.BitRules (S : LaneArithmetic) : Prop where
  bitCast : ∀ {f source target}, bitCast? f = some (source, target) → ∀ w,
    S.call f [.ofWord source w] = .ofWord target w
  keepsBits : ∀ {source target}, KeepsBits source target → ∀ w,
    S.construct target (.ofWord source w) = .ofWord target w
  add : ∀ a b, S.binary .add (.int a) (.int b) = .int (a + b)
  bitAnd : ∀ {t}, IsWhole t → ∀ a b,
    S.binary .bitAnd (.ofWord t a) (.ofWord t b) = .ofWord t (a &&& b)
  shift : ∀ {operator t}, operator = .shiftLeft ∨ operator = .shiftRight → IsWhole t →
    ∀ x n : UInt32, n.toNat < 32 →
      S.binary operator (.ofWord t x) (.ofWord t n) = .ofWord t (shiftBits operator t x n.toNat)
  bitfieldExtract : ∀ {t}, IsWhole t → ∀ x o w : UInt32, o.toNat + w.toNat ≤ 32 →
    S.call .bitfieldExtract [.ofWord t x, .int o, .int w]
      = .ofWord t (fieldBits t x o.toNat w.toNat)

/-! ### Operations against the language

Both sides are bit vectors of 32 bits, compared bit by bit. For a field the bits above it are pushed
out to the left and come back from the right, as zeros or as copies of its highest bit. -/

/-- A shift below 32 is what the operation does. -/
theorem shiftBits_eq_shifted {opcode : Opcode} {operator : BinaryOperator} (hop : IsShift opcode)
    (h : operator? opcode = some operator) {x n : UInt32} (hn : n.toNat < 32) :
    shiftBits operator opcode.resultType x n.toNat = shifted opcode x n := by
  rw [shifted, Nat.mod_eq_of_lt hn]
  rcases hop with rfl | rfl | rfl <;> cases h <;> rfl

section

variable {x : BitVec 32} {o w : Nat}

/-- A bit of a field, when the bits above the field have been pushed out. -/
theorem getLsbD_pushed {k : Nat} (h : o + w ≤ 32) (hk : k < w) :
    (x <<< (32 - (w + o))).getLsbD (32 - w + k) = x.getLsbD (o + k) := by
  have hplace : 32 - w + k - (32 - (w + o)) = o + k := by omega
  have hlt : 32 - w + k < 32 := by omega
  have hge : ¬ 32 - w + k < 32 - (w + o) := by omega
  simp only [BitVec.getLsbD_shiftLeft, hplace, hlt, hge, decide_true, decide_false,
    Bool.not_false, Bool.true_and]

/-- A field without a sign. -/
theorem setWidth_extractLsb' (h : o + w ≤ 32) :
    (x.extractLsb' o w).setWidth 32 = (x <<< (32 - (w + o))) >>> (32 - w) := by
  refine BitVec.eq_of_getLsbD_eq fun i hi => ?_
  rw [BitVec.getLsbD_setWidth, BitVec.getLsbD_extractLsb', BitVec.getLsbD_ushiftRight]
  by_cases hiw : i < w
  · simp [hi, hiw, getLsbD_pushed h hiw]
  · -- behind the field both sides are zero
    have hge : 32 ≤ 32 - w + i := by omega
    simp [hiw, BitVec.getLsbD_of_ge _ _ hge]

/-- The highest bit of a field becomes the sign when the bits above the field are pushed out. -/
theorem signExtend_extractLsb' (hw : 0 < w) (h : o + w ≤ 32) :
    (x.extractLsb' o w).signExtend 32 = (x <<< (32 - (w + o))).sshiftRight (32 - w) := by
  refine BitVec.eq_of_getLsbD_eq fun i hi => ?_
  rw [BitVec.getLsbD_signExtend, BitVec.getLsbD_sshiftRight]
  by_cases hiw : i < w
  · have hlt : 32 - w + i < 32 := by omega
    have hle : ¬ 32 ≤ i := Nat.not_le.2 hi
    simp only [hi, hiw, hlt, hle, if_true, decide_true, decide_false, Bool.not_false, Bool.true_and,
      BitVec.getLsbD_extractLsb', getLsbD_pushed h hiw]
  · -- behind the field both sides repeat its last bit
    have hge : ¬ 32 - w + i < 32 := by omega
    have hlast : w - 1 < w := Nat.sub_one_lt_of_lt hw
    have hmsb : 32 - 1 = 32 - w + (w - 1) := by omega
    simp only [hiw, hge, if_false, BitVec.msb_eq_getLsbD_last, BitVec.getLsbD_extractLsb', hmsb,
      getLsbD_pushed h hlast]
    simp [hlast, hi]

end

/-- A field that ends within the word is what the operation extracts. -/
theorem fieldBits_eq_extracted {opcode : Opcode} (hop : IsExtraction opcode)
    {width offset x : UInt32} (h : offset.toNat % 32 + width.toNat % 32 ≤ 32) :
    fieldBits opcode.resultType x (offset.toNat % 32) (width.toNat % 32)
      = extracted opcode width offset x := by
  have hsigned : decide (opcode = .ibfe) = decide (opcode.resultType = .int) := by
    rcases hop with rfl | rfl <;> rfl
  rw [extracted, fieldBits, hsigned]
  generalize offset.toNat % 32 = o, width.toNat % 32 = w at h
  refine congrArg UInt32.ofBitVec ?_
  -- a field of no bits is zero
  by_cases hw : w = 0
  · subst hw
    simp
  · rw [if_neg hw, cutLow, cutLow, setWidth_extractLsb' h,
      signExtend_extractLsb' (Nat.pos_of_ne_zero hw) h]
    by_cases hend : w + o < 32
    · simp [hend]
    · -- the field reaches up to the last bit
      have hnone : 32 - (w + o) = 0 := by omega
      have hrest : 32 - w = o := by omega
      simp [hend, hnone, hrest]

/-! ### Arithmetic on words

An arithmetic that follows the rules and gives a word of choice where they are silent. It is what
shows a result not to be settled. -/

/-- A function of two words on components that are whole numbers of one type. -/
def onWords (f : NumberType → UInt32 → UInt32 → UInt32) : Scalar → Scalar → Scalar
  | .int a, .int b => .int (f .int a b)
  | .uint a, .uint b => .uint (f .uint a b)
  | s, _ => s

/-- A field of a component, or another word if the field ends behind the last bit. -/
def fieldOr (other : UInt32) : List Scalar → Scalar
  | [.int x, .int o, .int w] =>
    .int (if o.toNat + w.toNat ≤ 32 then fieldBits .int x o.toNat w.toNat else other)
  | [.uint x, .int o, .int w] =>
    .uint (if o.toNat + w.toNat ≤ 32 then fieldBits .uint x o.toNat w.toNat else other)
  | s :: _ => s
  | [] => .truth false

/-- Arithmetic that follows the rules. Where they are silent it gives `other`. -/
def bitsOr (other : UInt32) : LaneArithmetic where
  call f arguments :=
    if f = .bitfieldExtract then fieldOr other arguments else bitArithmetic.call f arguments
  construct := bitArithmetic.construct
  unary := bitArithmetic.unary
  binary operator :=
    match operator with
    | .add => onWords fun _ a b => a + b
    | .bitAnd => onWords fun _ a b => a &&& b
    | .shiftLeft | .shiftRight => onWords fun t x n =>
      if n.toNat < 32 then shiftBits operator t x n.toNat else other
    | operator => bitArithmetic.binary operator
  type?_construct := bitArithmetic.type?_construct
  construct_of_type? := bitArithmetic.construct_of_type?
  type?_bitCast {f source target} h s := by
    have hf : f ≠ .bitfieldExtract := by
      rintro rfl
      cases h
    rw [if_neg hf]
    exact bitArithmetic.type?_bitCast h s
  type?_negate := bitArithmetic.type?_negate
  type?_abs _ := rfl
  type?_bitfieldExtract s offset width := by
    rw [if_pos rfl]
    unfold fieldOr
    split <;> simp_all [Scalar.type?]
  mix _ _ _ := rfl
  compare {f operator} h s s' := by
    obtain ⟨b, hcall, hbinary⟩ := bitArithmetic.compare h s s'
    have hf : f ≠ .bitfieldExtract := by
      rintro rfl
      cases h
    refine ⟨b, by rw [if_neg hf, hcall], ?_⟩
    unfold comparison? at h
    split at h <;> cases h <;> exact hbinary

section

variable (other : UInt32) {t : NumberType}

/-- A shift under this arithmetic. -/
theorem binary_bitsOr {operator : BinaryOperator}
    (h : operator = .shiftLeft ∨ operator = .shiftRight) (ht : IsWhole t) (x n : UInt32) :
    (bitsOr other).binary operator (.ofWord t x) (.ofWord t n)
      = .ofWord t (if n.toNat < 32 then shiftBits operator t x n.toNat else other) := by
  rcases h with rfl | rfl <;> rcases ht with rfl | rfl <;> rfl

/-- A field under this arithmetic. -/
theorem call_bitsOr (ht : IsWhole t) (x o w : UInt32) :
    (bitsOr other).call .bitfieldExtract [.ofWord t x, .int o, .int w]
      = .ofWord t (if o.toNat + w.toNat ≤ 32 then fieldBits t x o.toNat w.toNat else other) := by
  rcases ht with rfl | rfl <;> rfl

/-- The arithmetic follows the rules, whatever it gives beyond them. -/
theorem bitRules_bitsOr : (bitsOr other).BitRules where
  bitCast {f source target} h w := by
    unfold bitCast? at h
    split at h <;> cases h <;> rfl
  keepsBits h w := by
    rcases h with ⟨rfl, hdouble⟩ | ⟨rfl, rfl⟩ | ⟨rfl, rfl⟩
    · exact bitArithmetic.construct_of_type? (Scalar.type?_ofWord hdouble w)
    · rfl
    · rfl
  add _ _ := rfl
  bitAnd ht a b := by rcases ht with rfl | rfl <;> rfl
  shift hshift ht x n hn := by rw [binary_bitsOr other hshift ht, if_pos hn]
  bitfieldExtract ht x o w h := by rw [call_bitsOr other ht, if_pos h]

end

/-! ### When the language settles the result

A word and its successor differ, so an arithmetic that gives the successor of the right result gives
a wrong one. -/

/-- The word of a component is kept. -/
theorem ofWord_inj {t : NumberType} {a b : UInt32} :
    Scalar.ofWord t a = .ofWord t b ↔ a = b := by
  refine ⟨fun h => ?_, fun h => h ▸ rfl⟩
  rw [← word_ofWord t a, h, word_ofWord]

/-- No word is its own successor. -/
theorem add_one_ne (w : UInt32) : w + 1 ≠ w := by
  intro h
  simp at h

/-- Shifts are of whole numbers. -/
theorem isWhole_of_isShift {opcode : Opcode} (h : IsShift opcode) : IsWhole opcode.resultType := by
  rcases h with rfl | rfl | rfl
  · exact .inl rfl
  · exact .inl rfl
  · exact .inr rfl

/-- Fields are of whole numbers. -/
theorem isWhole_of_isExtraction {opcode : Opcode} (h : IsExtraction opcode) :
    IsWhole opcode.resultType := by
  rcases h with rfl | rfl
  · exact .inr rfl
  · exact .inl rfl

/-- The rules give what a shift does exactly if the count is below 32. -/
theorem LaneArithmetic.shift_eq_iff {opcode : Opcode} {operator : BinaryOperator}
    (hop : IsShift opcode) (h : operator? opcode = some operator) (x n : UInt32) :
    (∀ S : LaneArithmetic, S.BitRules →
      S.binary operator (.ofWord opcode.resultType x) (.ofWord opcode.resultType n)
        = .ofWord opcode.resultType (shifted opcode x n)) ↔ n.toNat < 32 := by
  have ht := isWhole_of_isShift hop
  have hshift : operator = .shiftLeft ∨ operator = .shiftRight := by
    rcases hop with rfl | rfl | rfl <;> cases h <;> simp
  refine ⟨fun hsettled => ?_, fun hn S hS => ?_⟩
  · by_contra hn
    have hother := hsettled (bitsOr (shifted opcode x n + 1)) (bitRules_bitsOr _)
    rw [binary_bitsOr _ hshift ht, if_neg hn] at hother
    exact add_one_ne _ (ofWord_inj.1 hother)
  · rw [hS.shift hshift ht x n hn, shiftBits_eq_shifted hop h hn]

/-- The lowest five bits of a word. -/
theorem toNat_and_31 (w : UInt32) : (w &&& 31).toNat = w.toNat % 32 := by
  rw [UInt32.toNat_and]
  exact Nat.and_two_pow_sub_one_eq_mod w.toNat 5

/-- The rules give the bits that are extracted exactly if the field ends within the word. -/
theorem LaneArithmetic.extract_eq_iff {opcode : Opcode} (hop : IsExtraction opcode)
    (w o x : UInt32) :
    (∀ S : LaneArithmetic, S.BitRules →
      S.call .bitfieldExtract [.ofWord opcode.resultType x, .int (o &&& 31), .int (w &&& 31)]
        = .ofWord opcode.resultType (extracted opcode w o x)) ↔
      o.toNat % 32 + w.toNat % 32 ≤ 32 := by
  have ht := isWhole_of_isExtraction hop
  rw [← toNat_and_31 o, ← toNat_and_31 w]
  refine ⟨fun hsettled => ?_, fun hin S hS => ?_⟩
  · by_contra hout
    have hother := hsettled (bitsOr (extracted opcode w o x + 1)) (bitRules_bitsOr _)
    rw [call_bitsOr _ ht, if_neg hout] at hother
    exact add_one_ne _ (ofWord_inj.1 hother)
  · rw [hS.bitfieldExtract ht x _ _ hin, toNat_and_31, toNat_and_31,
      fieldBits_eq_extracted hop (by rwa [toNat_and_31, toNat_and_31] at hin)]

end Glsl
end ShaderBytecode
