import ShaderBytecode.Proofs.Decimal.Rounding

/-!
# The search for shortest decimals

On the grid of the multiples of a power of ten, the search looks at the two neighbours of a value
only. That is enough: it finds a decimal in the interval of the value if the grid has one there.

    onGrid_eq_some, onGrid_eq_none : a decimal that is found is in the interval, and if none is
                                     found, then no multiple of the power of ten is
    shortest_spec                  : the search ends with a decimal in the interval
    digits_shortest_lt             : no decimal in the interval has fewer digits
    fewestDigits_shortest          : nor has any decimal that is rounded to the value

The search goes from coarse grids to fine ones. It begins at a grid that has no decimal in the
interval for certain, and ends at a grid that has one for certain, the value itself. So the first
grid with a decimal is the coarsest there is, and a decimal on a coarser grid has no more digits
than one on a finer grid, both being close to the same value.
-/

namespace ShaderBytecode
namespace Decimal

open BinaryFormat (two_zpow_pos)

/-- The number that a decimal stands for. -/
def value (d : Decimal) : ℚ := d.digits * 10 ^ d.exponent

/-- No decimal whose number has a property has fewer digits. -/
def FewestDigits (has : ℚ → Prop) (s : Decimal) : Prop :=
  ∀ d : Decimal, has d.value → ∀ n, d.digits < 10 ^ n → s.digits < 10 ^ n

/-- Powers of ten are positive. -/
theorem ten_zpow_pos (k : Int) : (0 : ℚ) < 10 ^ k := zpow_pos (by norm_num) k

/-! ### Comparing with a grid

An interval is given in powers of two and a grid in powers of ten. Multiplied by what both exponents
have in their denominators, the two become whole numbers, and so the search needs no fractions. -/

/-- The length of a unit of an interval, if the one of a step of the grid is `steps`. -/
def units (e k : Int) : Nat := power 2 e * power 10 (-k)

/-- The length of a step of the grid, if the one of a unit of an interval is `units`. -/
def steps (e k : Int) : Nat := power 2 (-e) * power 10 k

/-- A power is positive, also with an exponent below zero, where it is one. -/
theorem power_pos {b : Nat} (hb : 0 < b) (e : Int) : 0 < power b e := Nat.pow_pos hb

/-- A unit of an interval has a length. -/
theorem units_pos (e k : Int) : 0 < units e k :=
  Nat.mul_pos (power_pos (by decide) e) (power_pos (by decide) (-k))

/-- A step of a grid has a length. -/
theorem steps_pos (e k : Int) : 0 < steps e k :=
  Nat.mul_pos (power_pos (by decide) (-e)) (power_pos (by decide) k)

/-- A power times the power that makes it whole. -/
theorem zpow_mul_power {b : Nat} (hb : 0 < b) (e : Int) :
    (b : ℚ) ^ e * power b (-e) = power b e := by
  have hne : (b : ℚ) ≠ 0 := by exact_mod_cast hb.ne'
  simp only [power, Nat.pow_eq, Nat.cast_pow]
  rw [← zpow_natCast, ← zpow_natCast, ← zpow_add₀ hne]
  congr 1
  omega

/-- Units of an interval and steps of a grid are whole multiples of one length. -/
theorem mul_units (x : Nat) (e k : Int) :
    (x : ℚ) * 2 ^ e * (power 2 (-e) * power 10 (-k) : Nat) = (x * units e k : Nat) := by
  have htwo := zpow_mul_power (b := 2) (by decide) e
  push_cast [units] at htwo ⊢
  rw [← htwo]
  ring

/-- The same for the steps of a grid. -/
theorem mul_steps (a : Nat) (e k : Int) :
    (a : ℚ) * 10 ^ k * (power 2 (-e) * power 10 (-k) : Nat) = (a * steps e k : Nat) := by
  have hten := zpow_mul_power (b := 10) (by decide) k
  push_cast [steps] at hten ⊢
  rw [← hten]
  ring

/-- The common length is positive. -/
theorem scale_pos (e k : Int) : (0 : ℚ) < (power 2 (-e) * power 10 (-k) : Nat) := by
  exact_mod_cast Nat.mul_pos (power_pos (b := 2) (by decide) (-e))
    (power_pos (b := 10) (by decide) (-k))

/-- A unit count is compared with a step count in whole numbers. -/
theorem units_lt_iff {x a : Nat} {e k : Int} :
    (x : ℚ) * 2 ^ e < a * 10 ^ k ↔ x * units e k < a * steps e k := by
  rw [← mul_lt_mul_iff_of_pos_right (scale_pos e k), mul_units, mul_steps, Nat.cast_lt]

/-- The same with the grid on the left. -/
theorem lt_units_iff {x a : Nat} {e k : Int} :
    (a : ℚ) * 10 ^ k < x * 2 ^ e ↔ a * steps e k < x * units e k := by
  rw [← mul_lt_mul_iff_of_pos_right (scale_pos e k), mul_units, mul_steps, Nat.cast_lt]

/-- The same for equality. -/
theorem units_eq_iff {x a : Nat} {e k : Int} :
    (x : ℚ) * 2 ^ e = a * 10 ^ k ↔ x * units e k = a * steps e k := by
  rw [← mul_left_inj' (scale_pos e k).ne', mul_units, mul_steps, Nat.cast_inj]

/-- A multiple of a power of ten in an interval, in whole numbers. -/
theorem holds_mul_iff {i : Interval} {a : Nat} {k : Int} :
    i.Holds (a * 10 ^ k) ↔
      (i.low * units i.exponent k < a * steps i.exponent k ∨
        i.closed ∧ i.low * units i.exponent k = a * steps i.exponent k) ∧
      (a * steps i.exponent k < i.high * units i.exponent k ∨
        i.closed ∧ a * steps i.exponent k = i.high * units i.exponent k) := by
  rw [Interval.Holds, units_lt_iff, units_eq_iff, lt_units_iff, eq_comm (a := (a : ℚ) * 10 ^ k),
    units_eq_iff, eq_comm (a := i.high * units i.exponent k)]

/-! ### The neighbours of a value on a grid

The value lies between two neighbouring multiples. An interval around the value that holds any
multiple holds one of these two, since it holds everything between the multiple and the value. -/

section Grid

variable {tie : Tie} {i : Interval} {k : Int}

/-- The last multiple of a power of ten that is not above the value. -/
def below (i : Interval) (k : Int) : Nat :=
  i.value * units i.exponent k / steps i.exponent k

/-- The neighbour below is not above the value. -/
theorem below_mul_steps_le (i : Interval) (k : Int) :
    below i k * steps i.exponent k ≤ i.value * units i.exponent k :=
  Nat.div_mul_le_self _ _

/-- The neighbour above is above the value. -/
theorem lt_below_succ_mul_steps (i : Interval) (k : Int) :
    i.value * units i.exponent k < (below i k + 1) * steps i.exponent k :=
  Nat.lt_mul_of_div_lt (Nat.lt_add_one _) (steps_pos _ _)

/-- The neighbour below is never above the interval. -/
theorem holds_below_iff (hhigh : i.value < i.high) :
    i.Holds (below i k * 10 ^ k) ↔
      i.low * units i.exponent k < below i k * steps i.exponent k ∨
        i.closed ∧ i.low * units i.exponent k = below i k * steps i.exponent k := by
  have hlt : below i k * steps i.exponent k < i.high * units i.exponent k :=
    Nat.lt_of_le_of_lt (below_mul_steps_le i k) (Nat.mul_lt_mul_of_pos_right hhigh (units_pos _ _))
  rw [holds_mul_iff]
  exact and_iff_left (.inl hlt)

/-- The neighbour above is never below the interval. -/
theorem holds_above_iff (hlow : i.low < i.value) :
    i.Holds ((below i k + 1 : Nat) * 10 ^ k) ↔
      (below i k + 1) * steps i.exponent k < i.high * units i.exponent k ∨
        i.closed ∧ (below i k + 1) * steps i.exponent k = i.high * units i.exponent k := by
  have hlt : i.low * units i.exponent k < (below i k + 1) * steps i.exponent k :=
    Nat.lt_trans (Nat.mul_lt_mul_of_pos_right hlow (units_pos _ _)) (lt_below_succ_mul_steps i k)
  rw [holds_mul_iff]
  exact and_iff_right (.inl hlt)

/-- If a multiple of a power of ten is in the interval, then one of the neighbours is. -/
theorem holds_neighbour (hlow : i.low < i.value) (hhigh : i.value < i.high) {a : Nat}
    (h : i.Holds (a * 10 ^ k)) :
    i.Holds (below i k * 10 ^ k) ∨ i.Holds ((below i k + 1 : Nat) * 10 ^ k) := by
  rw [holds_below_iff hhigh, holds_above_iff hlow]
  obtain ⟨hleft, hright⟩ := holds_mul_iff.1 h
  rcases Nat.lt_or_ge (below i k) a with hlt | hle
  · have hmul : (below i k + 1) * steps i.exponent k ≤ a * steps i.exponent k :=
      Nat.mul_le_mul_right _ hlt
    rcases hright with hright | ⟨hclosed, hright⟩
    · exact .inr (.inl (by omega))
    · exact .inr (by simp only [hclosed, true_and]; omega)
  · have hmul : a * steps i.exponent k ≤ below i k * steps i.exponent k :=
      Nat.mul_le_mul_right _ hle
    rcases hleft with hleft | ⟨hclosed, hleft⟩
    · exact .inl (.inl (by omega))
    · exact .inl (by simp only [hclosed, true_and]; omega)

/-- What is found on a grid: one of the neighbours that are in the interval, if there is one. -/
theorem onGrid_cases (tie : Tie) (k : Int) (hlow : i.low < i.value) (hhigh : i.value < i.high) :
    (onGrid tie i k = some ⟨below i k + 1, k⟩ ∧ i.Holds ((below i k + 1 : Nat) * 10 ^ k)) ∨
    (onGrid tie i k = some ⟨below i k, k⟩ ∧ i.Holds (below i k * 10 ^ k)) ∨
    (onGrid tie i k = none ∧ ∀ a : Nat, ¬ i.Holds (a * 10 ^ k)) := by
  have hbelow := holds_below_iff (k := k) hhigh
  have habove := holds_above_iff (k := k) hlow
  unfold onGrid
  dsimp only
  -- the step above is tried first, then the one below
  split
  · next hfound => exact .inl ⟨rfl, habove.2 hfound.1⟩
  next hup =>
  split
  · next hdown => exact .inr (.inl ⟨rfl, hbelow.2 hdown⟩)
  · -- neither is in the interval, so nothing is
    next hdown =>
    refine .inr (.inr ⟨rfl, fun a ha => ?_⟩)
    rcases holds_neighbour hlow hhigh ha with hneighbour | hneighbour
    · exact hdown (hbelow.1 hneighbour)
    · exact hup ⟨habove.1 hneighbour, .inr hdown⟩

/-- A decimal that is found is on the grid and in the interval. -/
theorem onGrid_eq_some (hlow : i.low < i.value) (hhigh : i.value < i.high) {d : Decimal}
    (h : onGrid tie i k = some d) : d.exponent = k ∧ i.Holds d.value := by
  rcases onGrid_cases tie k hlow hhigh with ⟨hd, hin⟩ | ⟨hd, hin⟩ | ⟨hd, -⟩
  · cases h.symm.trans hd
    exact ⟨rfl, hin⟩
  · cases h.symm.trans hd
    exact ⟨rfl, hin⟩
  · cases h.symm.trans hd

/-- If none is found, then no multiple is in the interval. -/
theorem onGrid_eq_none (hlow : i.low < i.value) (hhigh : i.value < i.high)
    (h : onGrid tie i k = none) (a : Nat) : ¬ i.Holds (a * 10 ^ k) := by
  rcases onGrid_cases tie k hlow hhigh with ⟨hd, -⟩ | ⟨hd, -⟩ | ⟨-, hnone⟩
  · cases h.symm.trans hd
  · cases h.symm.trans hd
  · exact hnone a

end Grid

/-! ### The search

The search is a list of grids of which the first that gives something is taken. -/

/-- Nothing is found if no grid has anything. -/
theorem findSome?_range_eq_none_iff {g : Nat → Option α} {n : Nat} :
    (List.range n).findSome? g = none ↔ ∀ j < n, g j = none := by
  simp

/-- The first number that is found in a range. -/
theorem exists_of_findSome?_range {g : Nat → Option α} {n : Nat} {b : α}
    (h : (List.range n).findSome? g = some b) :
    ∃ m < n, g m = some b ∧ ∀ j < m, g j = none := by
  induction n with
  | zero => cases h
  | succ n ih =>
    rw [List.range_succ, List.findSome?_append] at h
    cases hfirst : (List.range n).findSome? g with
    | some b' =>
      rw [hfirst] at h
      obtain ⟨m, hm, hfound, hbefore⟩ := ih (hfirst.trans h)
      exact ⟨m, by omega, hfound, hbefore⟩
    | none =>
      rw [hfirst] at h
      exact ⟨n, by omega, by simpa using h, findSome?_range_eq_none_iff.1 hfirst⟩

section Search

variable {f : BinaryFormat} {tie : Tie} {p : BinaryFormat.Parts}

/-- The lower end is below the value. -/
theorem low_lt_value (hp : 0 < p.significand) :
    (Interval.ofParts f p).low < (Interval.ofParts f p).value := by
  unfold Interval.ofParts
  dsimp only
  split <;> omega

/-- The upper end is above the value. -/
theorem value_lt_high : (Interval.ofParts f p).value < (Interval.ofParts f p).high :=
  Nat.lt_add_of_pos_right (by decide)

/-- The interval does not reach down to zero. -/
theorem low_pos (hp : 0 < p.significand) : 0 < (Interval.ofParts f p).low := by
  unfold Interval.ofParts
  dsimp only
  split <;> omega

/-- A value is in its interval. -/
theorem holds_value (hp : 0 < p.significand) :
    (Interval.ofParts f p).Holds (p.significand * 2 ^ p.exponent) := by
  have hvalue : (p.significand * 2 ^ p.exponent : ℚ)
      = (Interval.ofParts f p).value * 2 ^ (Interval.ofParts f p).exponent := by
    simp only [Interval.ofParts, BinaryFormat.two_zpow_sub_two]
    push_cast
    ring
  have hunit := two_zpow_pos (Interval.ofParts f p).exponent
  rw [hvalue]
  constructor
  · exact .inl (mul_lt_mul_of_pos_right (Nat.cast_lt.2 (low_lt_value hp)) hunit)
  · exact .inl (mul_lt_mul_of_pos_right (Nat.cast_lt.2 value_lt_high) hunit)

/-- The last grid of the search is one that the value lies on. -/
theorem exists_mul_finest (p : BinaryFormat.Parts) :
    ∃ a : Nat, (a : ℚ) * 10 ^ (min p.exponent 0) = p.significand * 2 ^ p.exponent := by
  rcases Int.le_total 0 p.exponent with hexponent | hexponent
  · -- a whole value lies on the grid of ones
    obtain ⟨n, hn⟩ := Int.eq_ofNat_of_zero_le hexponent
    refine ⟨p.significand * 2 ^ n, ?_⟩
    rw [min_eq_right hexponent, hn, zpow_natCast]
    push_cast
    ring
  · -- a fraction with a power of two below lies on the grid of a power of ten below
    obtain ⟨n, hn⟩ := Int.eq_ofNat_of_zero_le (Int.neg_nonneg_of_nonpos hexponent)
    refine ⟨p.significand * 5 ^ n, ?_⟩
    have hten : (10 : ℚ) ^ n = 2 ^ n * 5 ^ n := by rw [← mul_pow]; norm_num
    have htwo : (2 : ℚ) ^ n ≠ 0 := by positivity
    have hfive : (5 : ℚ) ^ n ≠ 0 := by positivity
    rw [min_eq_left hexponent, show p.exponent = -(n : Int) by omega, zpow_neg, zpow_neg,
      zpow_natCast, zpow_natCast, hten]
    push_cast
    field_simp

/-- The search begins on a grid that is not finer than the one it ends on. -/
theorem finest_le_coarsest (p : BinaryFormat.Parts) : min p.exponent 0 ≤ coarsestGrid p := by
  unfold coarsestGrid
  omega

/-- The search ends on the coarsest of its grids that have a decimal in the interval. -/
theorem shortest_spec (tie : Tie) (hp : 0 < p.significand) :
    (Interval.ofParts f p).Holds (shortest f tie p).value ∧
      ∀ k, (shortest f tie p).exponent < k → k ≤ coarsestGrid p →
        ∀ a : Nat, ¬ (Interval.ofParts f p).Holds (a * 10 ^ k) := by
  have hlow := low_lt_value (f := f) hp
  have hhigh := value_lt_high (f := f) (p := p)
  unfold shortest
  dsimp only
  cases hsearch : (List.range (coarsestGrid p - min p.exponent 0 + 1).toNat).findSome?
      fun n : Nat => onGrid tie (Interval.ofParts f p) (coarsestGrid p - n) with
  | none =>
    -- the value itself is on the last grid, so something is found there
    have hle := finest_le_coarsest p
    obtain ⟨a, ha⟩ := exists_mul_finest p
    have hlast := findSome?_range_eq_none_iff.1 hsearch
      (coarsestGrid p - min p.exponent 0).toNat (by omega)
    rw [show coarsestGrid p - ((coarsestGrid p - min p.exponent 0).toNat : Int)
      = min p.exponent 0 by omega] at hlast
    exact absurd (ha ▸ holds_value hp) (onGrid_eq_none hlow hhigh hlast a)
  | some d =>
    obtain ⟨n, -, hd, hbefore⟩ := exists_of_findSome?_range hsearch
    obtain ⟨hexponent, hholds⟩ := onGrid_eq_some hlow hhigh hd
    refine ⟨hholds, fun k hk hcoarsest a => ?_⟩
    rw [Option.getD_some, hexponent] at hk
    -- the coarser grids came first, and nothing was found on them
    have hnone := hbefore (coarsestGrid p - k).toNat (by omega)
    rw [show coarsestGrid p - ((coarsestGrid p - k).toNat : Int) = k by omega] at hnone
    exact onGrid_eq_none hlow hhigh hnone a

/-! ### No shorter decimal

The bound on the exponents is the only place where the size of a format is needed. It lets an
approximation of the logarithm of two by one fraction be good enough: `10 ^ 1233 ≤ 2 ^ 4096 ≤ 10 ^
1234`. -/

/-- A power of two is at most a power of ten with an exponent that is large enough for it. -/
theorem two_zpow_le_ten_zpow {n few many : Nat} (hn : 0 < n) (hfew : 10 ^ few ≤ 2 ^ n)
    (hmany : 2 ^ n ≤ 10 ^ many) {x y : Int} (hx : few * x ≤ n * y) (hx' : many * x ≤ n * y) :
    (2 : ℚ) ^ x ≤ 10 ^ y := by
  have hfew' : (10 : ℚ) ^ few ≤ 2 ^ n := by exact_mod_cast hfew
  have hmany' : (2 : ℚ) ^ n ≤ 10 ^ many := by exact_mod_cast hmany
  -- both sides are compared by their powers
  have hroot : ((2 : ℚ) ^ x) ^ n ≤ ((10 : ℚ) ^ y) ^ n := by
    have htwo : ((2 : ℚ) ^ x) ^ n = (2 ^ n) ^ x := by
      rw [← zpow_natCast, ← zpow_natCast, zpow_comm]
    have hten : ((10 : ℚ) ^ y) ^ n = 10 ^ (n * y) := by
      rw [← zpow_natCast, ← zpow_mul, mul_comm]
    rw [htwo, hten]
    rcases Int.le_total 0 x with hsign | hsign
    · calc ((2 : ℚ) ^ n) ^ x ≤ (10 ^ many) ^ x :=
            zpow_le_zpow_left₀ hsign (by positivity) hmany'
        _ = 10 ^ (many * x) := by rw [← zpow_natCast, ← zpow_mul]
        _ ≤ 10 ^ (n * y) := zpow_le_zpow_right₀ (by norm_num) hx'
    · obtain ⟨m, hm⟩ := Int.eq_ofNat_of_zero_le (Int.neg_nonneg_of_nonpos hsign)
      obtain rfl : x = -(m : Int) := by omega
      calc ((2 : ℚ) ^ n) ^ (-(m : Int)) = (((2 : ℚ) ^ n) ^ m)⁻¹ := by rw [zpow_neg, zpow_natCast]
        _ ≤ ((10 ^ few) ^ m)⁻¹ :=
            inv_anti₀ (by positivity) (pow_le_pow_left₀ (by positivity) hfew' m)
        _ = 10 ^ (few * -(m : Int)) := by rw [zpow_mul, zpow_neg, zpow_natCast, zpow_natCast]
        _ ≤ 10 ^ (n * y) := zpow_le_zpow_right₀ (by norm_num) hx
  exact (pow_le_pow_iff_left₀ (two_zpow_pos x).le (ten_zpow_pos y).le hn.ne').1 hroot

/-- The numbers of an interval are positive. -/
theorem pos_of_holds (hp : 0 < p.significand) {x : ℚ} (h : (Interval.ofParts f p).Holds x) :
    0 < x :=
  (mul_pos (Nat.cast_pos.2 (low_pos hp)) (two_zpow_pos _)).trans_le h.low_le

/-- The upper end of an interval lies below the next power of two. -/
theorem high_lt (p : BinaryFormat.Parts) :
    ((Interval.ofParts f p).high : ℚ) * 2 ^ (Interval.ofParts f p).exponent
      < 2 ^ (p.exponent + Nat.log2 p.significand + 1) := by
  have hlog : (p.significand : ℚ) + 1 ≤ 2 ^ (Nat.log2 p.significand + 1) := by
    exact_mod_cast Nat.lt_log2_self (n := p.significand)
  have hunit := two_zpow_pos p.exponent
  have hsplit : (2 : ℚ) ^ (p.exponent + Nat.log2 p.significand + 1)
      = 2 ^ (Nat.log2 p.significand + 1) * 2 ^ p.exponent := by
    rw [add_assoc, zpow_add₀ (by norm_num), mul_comm]
    norm_cast
  simp only [Interval.ofParts, BinaryFormat.two_zpow_sub_two, hsplit]
  push_cast
  nlinarith

/-- The multiples of a power of ten on a grid coarser than those of the search are not in the
interval: the first of them is too large. -/
theorem not_holds_of_coarsestGrid_lt (hp : 0 < p.significand)
    (hbound : p.exponent + Nat.log2 p.significand + 1 ≤ 4096) {k : Int} (hk : coarsestGrid p < k)
    (a : Nat) : ¬ (Interval.ofParts f p).Holds (a * 10 ^ k) := by
  intro hholds
  have hpos := pos_of_holds hp hholds
  have ha : (1 : ℚ) ≤ a := by
    rcases Nat.eq_zero_or_pos a with rfl | ha
    · simp at hpos
    · exact_mod_cast ha
  have hlarge : (2 : ℚ) ^ (p.exponent + Nat.log2 p.significand + 1) ≤ 10 ^ k := by
    unfold coarsestGrid at hk
    have hfew : 10 ^ 1233 ≤ 2 ^ 4096 := by decide +kernel
    have hmany : 2 ^ 4096 ≤ 10 ^ 1234 := by decide +kernel
    exact two_zpow_le_ten_zpow (by decide) hfew hmany (by omega) (by omega)
  have hstep : (10 : ℚ) ^ k ≤ a * 10 ^ k := le_mul_of_one_le_left (ten_zpow_pos k).le ha
  linarith [hholds.le_high, high_lt (f := f) p]

/-- No decimal in the interval has fewer digits than the one that is found. -/
theorem digits_shortest_lt (hp : 0 < p.significand)
    (hbound : p.exponent + Nat.log2 p.significand + 1 ≤ 4096) {d : Decimal}
    (hd : (Interval.ofParts f p).Holds d.value) {n : Nat} (hn : d.digits < 10 ^ n) :
    (shortest f tie p).digits < 10 ^ n := by
  obtain ⟨hholds, hsearch⟩ := shortest_spec (f := f) tie hp
  generalize shortest f tie p = s at hholds hsearch
  have hcoarser : ∀ k, s.exponent < k → ∀ a : Nat, ¬ (Interval.ofParts f p).Holds (a * 10 ^ k) := by
    intro k hk
    rcases Int.lt_or_le (coarsestGrid p) k with hlt | hle
    · exact not_holds_of_coarsestGrid_lt hp hbound hlt
    · exact hsearch k hk hle
  have hexponent : d.exponent ≤ s.exponent :=
    Int.not_lt.1 fun hlt => hcoarser d.exponent hlt d.digits hd
  by_contra hdigits
  -- then `10 ^ n` steps of its grid lie between the two decimals, on a coarser grid
  have hmiddle : (10 : ℚ) ^ (s.exponent + n) = 10 ^ n * 10 ^ s.exponent := by
    rw [zpow_add₀ (by norm_num), zpow_natCast, mul_comm]
  have hle : (10 : ℚ) ^ (s.exponent + n) ≤ s.value := by
    rw [hmiddle, value]
    exact mul_le_mul_of_nonneg_right (by exact_mod_cast Nat.not_lt.1 hdigits) (ten_zpow_pos _).le
  have hge : d.value ≤ 10 ^ (s.exponent + n) := by
    rw [hmiddle, value]
    exact mul_le_mul (by exact_mod_cast hn.le) (zpow_le_zpow_right₀ (by norm_num) hexponent)
      (ten_zpow_pos _).le (by positivity)
  rcases Nat.eq_zero_or_pos n with rfl | hpos
  · have hzero : d.value = 0 := by simp [value, show d.digits = 0 by simpa using hn]
    exact absurd (pos_of_holds hp hd) (by rw [hzero]; exact lt_irrefl 0)
  · refine hcoarser (s.exponent + n) (by omega) 1 ?_
    simpa using hd.of_between hholds hge hle

end Search

section Numbers

open BinaryFormat

variable {f : BinaryFormat}

/-- The logarithm of a number of that many bits. -/
theorem log2_le_of_lt {n k : Nat} (h : n < 2 ^ (k + 1)) : Nat.log2 n ≤ k := by
  rcases Nat.eq_zero_or_pos n with rfl | hn
  · simp
  · exact Nat.le_of_lt_succ ((Nat.log2_lt hn.ne').2 h)

/-- The numbers of a format are all below one power of two. -/
theorem exponent_add_log2_le (f : BinaryFormat) (pattern : Nat) :
    (f.parts pattern).exponent + Nat.log2 (f.parts pattern).significand + 1
      ≤ f.leastExponent + 2 ^ f.exponentBits + f.fractionBits := by
  have hpow : 0 < 2 ^ f.exponentBits := Nat.two_pow_pos _
  have hfield := exponentField_lt f pattern
  have hfraction := fraction_lt f pattern
  have hlog : Nat.log2 (f.parts pattern).significand ≤ f.fractionBits := by
    refine log2_le_of_lt ?_
    simp only [parts, Nat.pow_succ, Nat.one_shiftLeft]
    split <;> (dsimp only; omega)
  have hexponent :
      (f.parts pattern).exponent + 1 ≤ f.leastExponent + (2 ^ f.exponentBits : Nat) := by
    simp only [parts]
    split <;> (dsimp only; omega)
  push_cast at hexponent
  omega

/-- No decimal that is rounded to a pattern has fewer digits than the one that is found. -/
theorem fewestDigits_shortest (hbits : 0 < f.fractionBits)
    (hrange : f.leastExponent + 2 ^ f.exponentBits + f.fractionBits ≤ 4096) (tie : Tie)
    {pattern : Nat} (hfinite : f.isFinite pattern = true) (hzero : f.isZero pattern = false) :
    FewestDigits (f.IsNearest (f.unsigned pattern)) (shortest f tie (f.parts pattern)) := by
  intro d hd n hn
  have hbound := (exponent_add_log2_le f pattern).trans hrange
  refine digits_shortest_lt (significand_pos hfinite hzero) hbound ?_ hn
  exact (holds_ofParts_unsigned_iff hbits hfinite hzero).2 hd

end Numbers

end Decimal
end ShaderBytecode
