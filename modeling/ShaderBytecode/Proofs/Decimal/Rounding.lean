import Mathlib.Algebra.Order.Field.Power
import Mathlib.Data.Rat.Lemmas
import Mathlib.Tactic.FieldSimp
import Mathlib.Tactic.Linarith
import Mathlib.Tactic.Ring
import ShaderBytecode.Decimal.Shortest

/-!
# Rounding to a binary format

The patterns of a format that have no sign stand for larger and larger numbers, and from each to the
next it is one step of its exponent. A number is rounded to the pattern that is nearest to it:

    IsNearest f pattern x : among the patterns up to the one of infinity, which counts as the next
      power of two, `pattern` is nearest to `x`, and of two equally near ones it is the even one

There is one such pattern only (`IsNearest.unique`). The numbers that are rounded to a pattern are
those in its interval, from which the search for decimals begins (`holds_ofParts_iff`).

All of this is about rational numbers, and no floating point number occurs. The format is a
parameter: nothing depends on how many bits an exponent or a fraction has, but that there is at
least one bit of fraction.
-/

namespace ShaderBytecode
namespace BinaryFormat

variable {f : BinaryFormat}

/-! ### Magnitudes

A pattern without its sign is a number in two digits, the exponent field and the fraction. The
fraction of a pattern with field zero has no leading bit. From such a pattern to the first with one
there is no jump, which is why the magnitudes grow by one step each time. -/

/-- The number that a pattern stands for, apart from its sign. -/
def magnitude (f : BinaryFormat) (pattern : Nat) : ℚ :=
  (f.parts pattern).significand * 2 ^ (f.parts pattern).exponent

/-- Powers of two are positive. -/
theorem two_zpow_pos (e : Int) : (0 : ℚ) < 2 ^ e := zpow_pos (by norm_num) e

/-- The next power of two is twice as large. -/
theorem two_zpow_succ (e : Int) : (2 : ℚ) ^ (e + 1) = 2 ^ e * 2 := zpow_add_one₀ (by norm_num) e

/-- A magnitude is not negative. -/
theorem magnitude_nonneg (pattern : Nat) : 0 ≤ f.magnitude pattern :=
  mul_nonneg (Nat.cast_nonneg _) (two_zpow_pos _).le

/-- The exponent field fits its bits. -/
theorem exponentField_lt (f : BinaryFormat) (pattern : Nat) :
    f.exponentField pattern < 2 ^ f.exponentBits := by
  rw [exponentField, Nat.one_shiftLeft]
  exact Nat.mod_lt _ (Nat.two_pow_pos _)

/-- The fraction fits its bits. -/
theorem fraction_lt (f : BinaryFormat) (pattern : Nat) :
    f.fraction pattern < 2 ^ f.fractionBits := by
  rw [fraction, Nat.one_shiftLeft]
  exact Nat.mod_lt _ (Nat.two_pow_pos _)

/-- A pattern without a sign, taken apart. -/
theorem parts_mul_add {field fraction : Nat} (hfield : field < 2 ^ f.exponentBits)
    (hfraction : fraction < 2 ^ f.fractionBits) :
    f.parts (field * 2 ^ f.fractionBits + fraction) =
      if field = 0 then ⟨fraction, f.leastExponent⟩
      else ⟨2 ^ f.fractionBits + fraction, f.leastExponent + (field - 1)⟩ := by
  have hpos : 0 < 2 ^ f.fractionBits := Nat.two_pow_pos _
  have hdiv : (field * 2 ^ f.fractionBits + fraction) / 2 ^ f.fractionBits = field := by
    rw [Nat.mul_comm, Nat.mul_add_div hpos, Nat.div_eq_of_lt hfraction, Nat.add_zero]
  have hmod : (field * 2 ^ f.fractionBits + fraction) % 2 ^ f.fractionBits = fraction := by
    rw [Nat.mul_comm, Nat.mul_add_mod, Nat.mod_eq_of_lt hfraction]
  simp only [parts, exponentField, BinaryFormat.fraction, Nat.shiftRight_eq_div_pow,
    Nat.shiftLeft_eq, Nat.one_mul, hdiv, hmod, Nat.mod_eq_of_lt hfield]

/-- The pattern of infinity has a full exponent field and no fraction. -/
theorem infinity_eq (f : BinaryFormat) :
    f.infinity = (2 ^ f.exponentBits - 1) * 2 ^ f.fractionBits := by
  simp [infinity, topExponent, Nat.shiftLeft_eq]

/-- The patterns up to the one of infinity have a field and a fraction. -/
theorem exists_mul_add {pattern : Nat} (h : pattern ≤ f.infinity) :
    ∃ field fraction, field < 2 ^ f.exponentBits ∧ fraction < 2 ^ f.fractionBits ∧
      pattern = field * 2 ^ f.fractionBits + fraction := by
  have hpos : 0 < 2 ^ f.fractionBits := Nat.two_pow_pos _
  refine ⟨pattern / 2 ^ f.fractionBits, pattern % 2 ^ f.fractionBits, ?_, Nat.mod_lt _ hpos, ?_⟩
  · rw [infinity_eq] at h
    have hle : pattern / 2 ^ f.fractionBits ≤ 2 ^ f.exponentBits - 1 :=
      Nat.div_le_of_le_mul (by rwa [Nat.mul_comm])
    exact Nat.lt_of_le_of_lt hle (Nat.sub_one_lt (Nat.two_pow_pos _).ne')
  · rw [Nat.mul_comm, Nat.div_add_mod]

/-- From a pattern to the next it is one step of its exponent. -/
theorem magnitude_succ {pattern : Nat} (h : pattern < f.infinity) :
    f.magnitude (pattern + 1) = f.magnitude pattern + 2 ^ (f.parts pattern).exponent := by
  obtain ⟨field, fraction, hfield, hfraction, rfl⟩ := exists_mul_add h.le
  by_cases hcarry : fraction + 1 < 2 ^ f.fractionBits
  · rw [Nat.add_assoc, magnitude, magnitude, parts_mul_add hfield hcarry,
      parts_mul_add hfield hfraction]
    split <;> · push_cast; ring
  · -- the fraction is full, so the next pattern has the next field and no fraction
    have hfull : (fraction : ℚ) + 1 = 2 ^ f.fractionBits := by
      have hfull : fraction + 1 = 2 ^ f.fractionBits := by omega
      exact_mod_cast hfull
    have hnext :
        field * 2 ^ f.fractionBits + fraction + 1 = (field + 1) * 2 ^ f.fractionBits + 0 := by
      rw [Nat.add_mul]; omega
    have hfield' : field + 1 < 2 ^ f.exponentBits := by
      rw [infinity_eq] at h
      have hlt : field < 2 ^ f.exponentBits - 1 :=
        Nat.lt_of_mul_lt_mul_right (a := 2 ^ f.fractionBits) (by omega)
      omega
    rw [hnext, magnitude, magnitude, parts_mul_add hfield' (Nat.two_pow_pos _),
      parts_mul_add hfield hfraction, if_neg (Nat.succ_ne_zero field)]
    by_cases hzero : field = 0
    · rw [if_pos hzero]
      subst hzero
      push_cast
      rw [← hfull]
      simp
      ring
    · rw [if_neg hzero]
      have hexponent : f.leastExponent + ((field + 1 : Nat) - 1 : Int)
          = f.leastExponent + (field - 1) + 1 := by push_cast; ring
      simp only [hexponent, two_zpow_succ]
      push_cast
      rw [← hfull]
      ring

/-- A larger pattern stands for a larger number. -/
theorem magnitude_strictMono {low high : Nat} (hlt : low < high) (h : high ≤ f.infinity) :
    f.magnitude low < f.magnitude high := by
  induction high, hlt using Nat.le_induction with
  | base =>
    rw [magnitude_succ h]
    exact lt_add_of_pos_right _ (two_zpow_pos _)
  | succ high hlow ih =>
    rw [magnitude_succ h]
    exact (ih (by omega)).trans (lt_add_of_pos_right _ (two_zpow_pos _))

/-! ### The nearest pattern

To be nearest is a statement about all patterns, and only the two neighbours decide it. For each of
them it is a comparison with the middle between two numbers, which is where intervals come from. -/

/-- A pattern is nearer to a number than another one, or it is as near and even. -/
def Nearer (f : BinaryFormat) (pattern other : Nat) (x : ℚ) : Prop :=
  |f.magnitude pattern - x| < |f.magnitude other - x| ∨
    |f.magnitude pattern - x| = |f.magnitude other - x| ∧ pattern % 2 = 0

/-- The pattern that a number is rounded to. -/
structure IsNearest (f : BinaryFormat) (pattern : Nat) (x : ℚ) : Prop where
  le_infinity : pattern ≤ f.infinity
  nearer : ∀ other ≤ f.infinity, other ≠ pattern → f.Nearer pattern other x

/-- Being nearer to the smaller of two numbers is being below their middle. -/
theorem abs_sub_lt_iff_lt_middle {a b x : ℚ} (h : a < b) : |a - x| < |b - x| ↔ x < (a + b) / 2 := by
  constructor <;> intro hx <;>
    rcases abs_cases (a - x) with ha | ha <;> rcases abs_cases (b - x) with hb | hb <;> linarith

/-- Being nearer to the larger of two numbers is being above their middle. -/
theorem abs_sub_lt_iff_middle_lt {a b x : ℚ} (h : a < b) : |b - x| < |a - x| ↔ (a + b) / 2 < x := by
  constructor <;> intro hx <;>
    rcases abs_cases (a - x) with ha | ha <;> rcases abs_cases (b - x) with hb | hb <;> linarith

/-- A number that is equally near to two numbers is their middle. -/
theorem abs_sub_eq_iff_eq_middle {a b x : ℚ} (h : a < b) : |a - x| = |b - x| ↔ x = (a + b) / 2 := by
  rw [← not_iff_not, ← ne_eq, ← ne_eq, ne_iff_lt_or_gt, ne_iff_lt_or_gt,
    abs_sub_lt_iff_lt_middle h, abs_sub_lt_iff_middle_lt h]

/-- A pattern is nearer than one below it to the numbers above the middle between them. -/
theorem nearer_iff_of_gt {pattern other : Nat} (hlt : other < pattern) (h : pattern ≤ f.infinity)
    {x : ℚ} : f.Nearer pattern other x ↔
      (f.magnitude other + f.magnitude pattern) / 2 < x ∨
        pattern % 2 = 0 ∧ (f.magnitude other + f.magnitude pattern) / 2 = x := by
  have hmagnitude := magnitude_strictMono hlt h
  rw [Nearer, abs_sub_lt_iff_middle_lt hmagnitude, eq_comm (b := |f.magnitude other - x|),
    abs_sub_eq_iff_eq_middle hmagnitude, eq_comm (a := x), and_comm (b := pattern % 2 = 0)]

/-- A pattern is nearer than one above it to the numbers below the middle between them. -/
theorem nearer_iff_of_lt {pattern other : Nat} (hlt : pattern < other) (h : other ≤ f.infinity)
    {x : ℚ} : f.Nearer pattern other x ↔
      x < (f.magnitude pattern + f.magnitude other) / 2 ∨
        pattern % 2 = 0 ∧ x = (f.magnitude pattern + f.magnitude other) / 2 := by
  have hmagnitude := magnitude_strictMono hlt h
  rw [Nearer, abs_sub_lt_iff_lt_middle hmagnitude, abs_sub_eq_iff_eq_middle hmagnitude,
    and_comm (b := pattern % 2 = 0)]

/-- Only the neighbours of a pattern can be nearer to a number than the pattern. -/
theorem isNearest_iff {pattern : Nat} (h : pattern < f.infinity) {x : ℚ} :
    f.IsNearest pattern x ↔
      (∀ below, below + 1 = pattern → f.Nearer pattern below x) ∧
        f.Nearer pattern (pattern + 1) x := by
  constructor
  · intro hnearest
    exact ⟨fun below hbelow => hnearest.nearer below (by omega) (by omega),
      hnearest.nearer _ h (by omega)⟩
  · -- the two neighbours are farther off, and everything beyond them even more so
    rintro ⟨hbelow, habove⟩
    refine ⟨h.le, fun other hother hne => ?_⟩
    rcases Nat.lt_or_gt_of_ne hne with hlt | hgt
    · obtain ⟨below, rfl⟩ := Nat.exists_eq_add_one_of_ne_zero (Nat.ne_zero_of_lt hlt)
      rcases Nat.eq_or_lt_of_le (Nat.le_of_lt_succ hlt) with rfl | hlt'
      · exact hbelow other rfl
      have hmagnitude := magnitude_strictMono (f := f) hlt' (by omega)
      rw [nearer_iff_of_gt hlt h.le]
      rcases (nearer_iff_of_gt (Nat.lt_add_one below) h.le).1 (hbelow below rfl) with hx | ⟨-, hx⟩
      all_goals exact .inl (by linarith)
    · rcases Nat.eq_or_lt_of_le (Nat.succ_le_of_lt hgt) with rfl | hgt'
      · exact habove
      have hmagnitude := magnitude_strictMono hgt' hother
      rw [nearer_iff_of_lt hgt hother]
      rcases (nearer_iff_of_lt (Nat.lt_add_one pattern) h).1 habove with hx | ⟨-, hx⟩
      all_goals exact .inl (by linarith)

/-- Of two patterns that are as near as possible one would be odd, or another one between them. -/
theorem IsNearest.not_lt {low high : Nat} {x : ℚ} (h : f.IsNearest low x)
    (h' : f.IsNearest high x) : ¬ low < high := by
  intro hlt
  have hlow := (nearer_iff_of_lt hlt h'.le_infinity).1 (h.nearer high h'.le_infinity (by omega))
  have hhigh := (nearer_iff_of_gt hlt h'.le_infinity).1 (h'.nearer low h.le_infinity (by omega))
  -- each is nearer than the other, so the number is in the middle between them and both are even
  obtain ⟨hx, heven, heven'⟩ : x = (f.magnitude low + f.magnitude high) / 2 ∧
      low % 2 = 0 ∧ high % 2 = 0 := by
    rcases hlow with hlow | ⟨heven, hx⟩
    · rcases hhigh with hhigh | ⟨-, hhigh⟩ <;> linarith
    · rcases hhigh with hhigh | ⟨heven', -⟩
      · linarith
      · exact ⟨hx, heven, heven'⟩
  -- then there is an odd number between them, and it is nearer
  have hnext : low + 1 < high := by omega
  have hmagnitude := magnitude_strictMono hnext h'.le_infinity
  have hhigh' := (nearer_iff_of_gt hnext h'.le_infinity).1
    (h'.nearer (low + 1) (by have := h'.le_infinity; omega) (by omega))
  have hlow' := magnitude_strictMono (Nat.lt_add_one low) (hnext.le.trans h'.le_infinity)
  rcases hhigh' with hhigh' | ⟨-, hhigh'⟩ <;> linarith

/-- A number is rounded to one pattern. -/
theorem IsNearest.unique {pattern pattern' : Nat} {x : ℚ} (h : f.IsNearest pattern x)
    (h' : f.IsNearest pattern' x) : pattern = pattern' :=
  Nat.le_antisymm (Nat.not_lt.1 (h'.not_lt h)) (Nat.not_lt.1 (h.not_lt h'))

end BinaryFormat

/-! ### Intervals

The search for decimals has an interval in units of a quarter of a step, so that its ends are whole
numbers. They are shown to be the middles between a pattern and its neighbours. -/

namespace Decimal

/-- A number is in an interval. -/
def Interval.Holds (i : Interval) (x : ℚ) : Prop :=
  (i.low * 2 ^ i.exponent < x ∨ i.closed ∧ i.low * 2 ^ i.exponent = x) ∧
    (x < i.high * 2 ^ i.exponent ∨ i.closed ∧ x = i.high * 2 ^ i.exponent)

/-- A number of an interval is not above its upper end. -/
theorem Interval.Holds.le_high {i : Interval} {x : ℚ} (h : i.Holds x) :
    x ≤ i.high * 2 ^ i.exponent :=
  h.2.elim le_of_lt fun h => h.2.le

/-- A number of an interval is not below its lower end. -/
theorem Interval.Holds.low_le {i : Interval} {x : ℚ} (h : i.Holds x) :
    i.low * 2 ^ i.exponent ≤ x :=
  h.1.elim le_of_lt fun h => h.2.le

/-- What lies between two numbers of an interval is in it. -/
theorem Interval.Holds.of_between {i : Interval} {x y z : ℚ} (hx : i.Holds x) (hz : i.Holds z)
    (hxy : x ≤ y) (hyz : y ≤ z) : i.Holds y := by
  constructor
  · rcases hx.1 with h | ⟨hclosed, h⟩
    · exact .inl (h.trans_le hxy)
    · exact (h.le.trans hxy).lt_or_eq.imp_right fun h => ⟨hclosed, h⟩
  · rcases hz.2 with h | ⟨hclosed, h⟩
    · exact .inl (hyz.trans_lt h)
    · exact (hyz.trans h.le).lt_or_eq.imp_right fun h => ⟨hclosed, h⟩

end Decimal

namespace BinaryFormat

variable {f : BinaryFormat}

open Decimal (Interval)

/-- A quarter of a power of two. -/
theorem two_zpow_sub_two (e : Int) : (2 : ℚ) ^ (e - 2) = 2 ^ e / 4 := by
  rw [zpow_sub₀ (by norm_num)]
  norm_num

/-- The exponent of a pattern is the one of the pattern before it, or the next if the pattern is
the first with its exponent field. -/
theorem exponent_succ {pattern : Nat} (h : pattern < f.infinity) :
    (f.parts pattern).exponent =
      if (f.parts (pattern + 1)).significand = 1 <<< f.fractionBits ∧
          f.leastExponent < (f.parts (pattern + 1)).exponent
      then (f.parts (pattern + 1)).exponent - 1 else (f.parts (pattern + 1)).exponent := by
  have hle : pattern + 1 ≤ f.infinity := h
  obtain ⟨field, fraction, hfield, hfraction, hpattern⟩ := exists_mul_add hle
  rw [hpattern, parts_mul_add hfield hfraction, Nat.shiftLeft_eq, Nat.one_mul]
  -- within a field the exponent stays; at the first fraction of one it may have grown
  cases fraction with
  | succ fraction =>
    obtain rfl : pattern = field * 2 ^ f.fractionBits + fraction := by omega
    rw [parts_mul_add hfield (by omega)]
    by_cases hzero : field = 0
    · simp [hzero, hfraction.ne]
    · simp [hzero]
  | zero =>
    obtain ⟨field, rfl⟩ : ∃ before, field = before + 1 :=
      Nat.exists_eq_add_one_of_ne_zero (by rintro rfl; simp at hpattern)
    have hpos := Nat.two_pow_pos f.fractionBits
    obtain rfl : pattern = field * 2 ^ f.fractionBits + (2 ^ f.fractionBits - 1) := by
      rw [Nat.add_mul] at hpattern
      omega
    rw [parts_mul_add (by omega) (by omega), if_neg (Nat.succ_ne_zero field)]
    by_cases hzero : field = 0
    · simp [hzero]
    · rw [if_neg hzero, if_pos ⟨rfl, by dsimp only; omega⟩]
      push_cast
      ring

/-- A pattern behind another one is not that of zero. -/
theorem significand_succ_pos {pattern : Nat} (h : pattern < f.infinity) :
    0 < (f.parts (pattern + 1)).significand := by
  refine Nat.pos_of_ne_zero fun hzero => ?_
  have hlt := magnitude_strictMono (Nat.lt_add_one pattern) h
  have hnext : f.magnitude (pattern + 1) = 0 := by simp [magnitude, hzero]
  exact absurd (magnitude_nonneg pattern) (by rw [not_le, ← hnext]; exact hlt)

/-- The lower end of the interval of a pattern lies in the middle between it and the one before. -/
theorem low_ofParts {pattern : Nat} (h : pattern < f.infinity) :
    ((Interval.ofParts f (f.parts (pattern + 1))).low : ℚ)
        * 2 ^ (Interval.ofParts f (f.parts (pattern + 1))).exponent
      = (f.magnitude pattern + f.magnitude (pattern + 1)) / 2 := by
  have hmagnitude := magnitude_succ h
  have hexponent := exponent_succ h
  have hpos := significand_succ_pos h
  rw [eq_sub_of_add_eq hmagnitude.symm, hexponent]
  unfold magnitude Interval.ofParts
  generalize f.parts (pattern + 1) = p at hpos
  dsimp only
  -- the step below is half as long where the fraction is zero
  split
  · rw [two_zpow_sub_two, zpow_sub_one₀ (by norm_num), Nat.cast_sub (by omega)]
    push_cast
    ring
  · rw [two_zpow_sub_two, Nat.cast_sub (by omega)]
    push_cast
    ring

/-- The upper end of the interval of a pattern lies in the middle between it and the next. -/
theorem high_ofParts {pattern : Nat} (h : pattern < f.infinity) :
    ((Interval.ofParts f (f.parts pattern)).high : ℚ)
        * 2 ^ (Interval.ofParts f (f.parts pattern)).exponent
      = (f.magnitude pattern + f.magnitude (pattern + 1)) / 2 := by
  rw [magnitude_succ h, magnitude, Interval.ofParts]
  push_cast
  rw [two_zpow_sub_two]
  ring

/-- The ends belong to the interval of an even pattern. -/
theorem closed_ofParts (hbits : 0 < f.fractionBits) {pattern : Nat} (h : pattern ≤ f.infinity) :
    (Interval.ofParts f (f.parts pattern)).closed = true ↔ pattern % 2 = 0 := by
  obtain ⟨field, fraction, hfield, hfraction, rfl⟩ := exists_mul_add h
  have heven : 2 ∣ 2 ^ f.fractionBits := dvd_pow_self 2 hbits.ne'
  have heven' : 2 ∣ field * 2 ^ f.fractionBits := heven.mul_left field
  rw [parts_mul_add hfield hfraction, Interval.ofParts, decide_eq_true_iff]
  split
  · dsimp only
    omega
  · dsimp only
    omega

/-- The interval of a pattern holds the numbers that are rounded to it. -/
theorem holds_ofParts_iff (hbits : 0 < f.fractionBits) {pattern : Nat}
    (h : pattern + 1 < f.infinity) {x : ℚ} :
    (Interval.ofParts f (f.parts (pattern + 1))).Holds x ↔ f.IsNearest (pattern + 1) x := by
  have hbelow : f.Nearer (pattern + 1) pattern x ↔ _ :=
    nearer_iff_of_gt (Nat.lt_add_one pattern) h.le
  have habove : f.Nearer (pattern + 1) (pattern + 1 + 1) x ↔ _ :=
    nearer_iff_of_lt (Nat.lt_add_one (pattern + 1)) h
  rw [isNearest_iff h, habove, Interval.Holds, low_ofParts (by omega), high_ofParts h,
    closed_ofParts hbits h.le]
  refine and_congr_left fun _ => ?_
  rw [← hbelow]
  exact ⟨fun hpattern below hadd => Nat.add_right_cancel hadd ▸ hpattern, fun hall => hall _ rfl⟩

/-! ### Signs

The sign is one bit in front of the others. It takes no part in rounding, and a number that is not
zero has only one of the two patterns. -/

/-- The pattern that a number is rounded to, if it is given by its sign and its magnitude. So zero
has a sign as well. -/
def RoundsTo (f : BinaryFormat) (negative : Bool) (x : ℚ) (pattern : Nat) : Prop :=
  ∃ magnitude, f.IsNearest magnitude x ∧ pattern = f.signPattern negative + magnitude

/-- A pattern apart from its sign. -/
def unsigned (f : BinaryFormat) (pattern : Nat) : Nat :=
  pattern % 2 ^ (f.fractionBits + f.exponentBits)

/-- A pattern is its sign bit and the other bits. -/
theorem signPattern_add_unsigned {pattern : Nat}
    (h : pattern < 2 ^ (f.fractionBits + f.exponentBits + 1)) :
    f.signPattern (f.isNegative pattern) + f.unsigned pattern = pattern := by
  have hsplit := Nat.div_add_mod pattern (2 ^ (f.fractionBits + f.exponentBits))
  have hdiv : pattern / 2 ^ (f.fractionBits + f.exponentBits) < 2 :=
    Nat.div_lt_of_lt_mul (by rwa [← Nat.pow_succ])
  rw [signPattern, isNegative, Nat.testBit_eq_decide_div_mod_eq, unsigned, Nat.one_shiftLeft]
  generalize pattern / 2 ^ (f.fractionBits + f.exponentBits) = sign at hsplit hdiv
  obtain rfl | rfl : sign = 0 ∨ sign = 1 := by omega
  · simpa using hsplit
  · simpa using hsplit

/-- The exponent field does not see the sign. -/
theorem exponentField_unsigned (pattern : Nat) :
    f.exponentField (f.unsigned pattern) = f.exponentField pattern := by
  simp only [exponentField, unsigned, Nat.shiftRight_eq_div_pow, Nat.one_shiftLeft, Nat.pow_add,
    Nat.mod_mul_right_div_self, Nat.mod_mod]

/-- The fraction does not see the sign. -/
theorem fraction_unsigned (pattern : Nat) :
    f.fraction (f.unsigned pattern) = f.fraction pattern := by
  simp only [fraction, unsigned, Nat.one_shiftLeft, Nat.pow_add, Nat.mod_mul_right_mod]

/-- Nor do the parts that are made of them. -/
theorem parts_unsigned (pattern : Nat) : f.parts (f.unsigned pattern) = f.parts pattern := by
  simp only [parts, exponentField_unsigned, fraction_unsigned]

/-- A pattern is its sign, its exponent field and its fraction. -/
theorem unsigned_eq (pattern : Nat) :
    f.unsigned pattern = f.exponentField pattern * 2 ^ f.fractionBits + f.fraction pattern := by
  simp only [unsigned, exponentField, fraction, Nat.shiftRight_eq_div_pow, Nat.one_shiftLeft,
    Nat.pow_add, Nat.mod_mul]
  ring

/-- A finite pattern comes before that of infinity. -/
theorem unsigned_lt_infinity {pattern : Nat} (h : f.isFinite pattern = true) :
    f.unsigned pattern < f.infinity := by
  have hfield := exponentField_lt f pattern
  have hfraction := fraction_lt f pattern
  have hfinite : f.exponentField pattern ≠ 2 ^ f.exponentBits - 1 := by
    simpa [isFinite, topExponent, Nat.one_shiftLeft] using h
  calc f.unsigned pattern
      = f.exponentField pattern * 2 ^ f.fractionBits + f.fraction pattern := unsigned_eq pattern
    _ < (f.exponentField pattern + 1) * 2 ^ f.fractionBits := by rw [Nat.add_one_mul]; omega
    _ ≤ (2 ^ f.exponentBits - 1) * 2 ^ f.fractionBits := Nat.mul_le_mul_right _ (by omega)
    _ = f.infinity := (infinity_eq f).symm

/-- Only the two zeros have no bits besides the sign. -/
theorem unsigned_eq_zero_iff (pattern : Nat) :
    f.unsigned pattern = 0 ↔ f.isZero pattern = true := by
  rw [unsigned_eq, Nat.add_eq_zero_iff, isZero, Bool.and_eq_true, beq_iff_eq, beq_iff_eq]
  simp

/-- A number with the sign of a pattern is rounded to it if its magnitude is. -/
theorem roundsTo_isNegative_iff {pattern : Nat}
    (h : pattern < 2 ^ (f.fractionBits + f.exponentBits + 1)) {x : ℚ} :
    f.RoundsTo (f.isNegative pattern) x pattern ↔ f.IsNearest (f.unsigned pattern) x := by
  have hpattern := signPattern_add_unsigned h
  constructor
  · rintro ⟨magnitude, hmagnitude, hsum⟩
    obtain rfl : magnitude = f.unsigned pattern := by omega
    exact hmagnitude
  · exact fun hnearest => ⟨_, hnearest, hpattern.symm⟩

/-- A number is rounded to one pattern with its sign. -/
theorem RoundsTo.unique {negative : Bool} {x : ℚ} {pattern pattern' : Nat}
    (h : f.RoundsTo negative x pattern) (h' : f.RoundsTo negative x pattern') :
    pattern = pattern' := by
  obtain ⟨magnitude, hmagnitude, rfl⟩ := h
  obtain ⟨magnitude', hmagnitude', rfl⟩ := h'
  rw [hmagnitude.unique hmagnitude']

/-- Zero is rounded to the first pattern. -/
theorem isNearest_zero (h : 0 < f.infinity) : f.IsNearest 0 0 := by
  refine (isNearest_iff h).2 ⟨fun below hbelow => absurd hbelow (Nat.succ_ne_zero below), ?_⟩
  have hlt := magnitude_strictMono Nat.one_pos h
  exact (nearer_iff_of_lt Nat.one_pos h).2 (.inl (by linarith [magnitude_nonneg (f := f) 0]))

/-- A finite number that is not zero has a pattern before it and one behind it. -/
theorem exists_unsigned_eq_succ {pattern : Nat} (hfinite : f.isFinite pattern = true)
    (hzero : f.isZero pattern = false) :
    ∃ before, f.unsigned pattern = before + 1 ∧ before + 1 < f.infinity := by
  have hne : f.unsigned pattern ≠ 0 := by
    rw [Ne, unsigned_eq_zero_iff, hzero]
    decide
  obtain ⟨before, hbefore⟩ := Nat.exists_eq_add_one_of_ne_zero hne
  exact ⟨before, hbefore, hbefore ▸ unsigned_lt_infinity hfinite⟩

/-- A finite number that is not zero has a significand. -/
theorem significand_pos {pattern : Nat} (hfinite : f.isFinite pattern = true)
    (hzero : f.isZero pattern = false) : 0 < (f.parts pattern).significand := by
  obtain ⟨before, hbefore, hlt⟩ := exists_unsigned_eq_succ hfinite hzero
  rw [← parts_unsigned, hbefore]
  exact significand_succ_pos (Nat.lt_of_succ_lt hlt)

/-- The interval of a finite number holds what is rounded to it. -/
theorem holds_ofParts_unsigned_iff (hbits : 0 < f.fractionBits) {pattern : Nat}
    (hfinite : f.isFinite pattern = true) (hzero : f.isZero pattern = false) {x : ℚ} :
    (Interval.ofParts f (f.parts pattern)).Holds x ↔ f.IsNearest (f.unsigned pattern) x := by
  obtain ⟨before, hbefore, hlt⟩ := exists_unsigned_eq_succ hfinite hzero
  rw [← parts_unsigned, hbefore]
  exact holds_ofParts_iff hbits hlt

end BinaryFormat
end ShaderBytecode
