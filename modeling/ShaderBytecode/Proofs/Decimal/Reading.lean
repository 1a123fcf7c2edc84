import ShaderBytecode.Decimal.Style
import ShaderBytecode.Proofs.Decimal.Shortest

/-!
# Reading decimals

A number is written with digits, of which some stand behind a point or an exponent stands behind
all of them, and with a sign if it is negative. Reading it gives its sign and a decimal; whatever
the style, that decimal is the one that was written:

    magnitude?_positive : ∃ d', magnitude? (style.positive d).toList = some d' ∧ d'.value = d.value
    read?_number        : a finite number is written as a decimal that is rounded to its pattern,
                          and with as few digits as any that is

The reader is that of a language with floating point literals: digits, then a point with digits or
an exponent or both, in this order. It is written down here to say what a text stands for, and it is
as narrow as it can be. A text that it does not read is no number that a shader may contain.
-/

namespace ShaderBytecode
namespace Decimal

/-! ### The reader -/

/-- The number that digits stand for. -/
def numeralValue (digits : List Char) : Nat := Nat.ofDigitChars 10 digits 0

/-- The digits behind a point, and what follows them. Without a point an exponent must follow. -/
def fraction? : List Char → Option (List Char × List Char)
  | '.' :: cs =>
    if (cs.takeWhile Char.isDigit).isEmpty then none
    else some (cs.takeWhile Char.isDigit, cs.dropWhile Char.isDigit)
  | 'e' :: cs => some ([], 'e' :: cs)
  | _ => none

/-- The whole number that digits stand for, if there are only digits. -/
def whole? (cs : List Char) : Option Nat :=
  if cs.isEmpty ∨ cs.any (!·.isDigit) then none else some (numeralValue cs)

/-- A whole number that may have a sign. -/
def integer? : List Char → Option Int
  | '-' :: cs => (whole? cs).map fun n => -(n : Int)
  | '+' :: cs => (whole? cs).map fun n => (n : Int)
  | cs => (whole? cs).map fun n => (n : Int)

/-- The exponent at the end of a number, zero if there is none. -/
def exponent? : List Char → Option Int
  | [] => some 0
  | 'e' :: cs => integer? cs
  | _ => none

/-- A number without a sign. -/
def magnitude? (cs : List Char) : Option Decimal :=
  let whole := cs.takeWhile Char.isDigit
  if whole.isEmpty then none
  else (fraction? (cs.dropWhile Char.isDigit)).bind fun (fraction, rest) =>
    (exponent? rest).map fun exponent =>
      ⟨numeralValue (whole ++ fraction), exponent - fraction.length⟩

/-- A number with its sign: whether it is negative, and its magnitude. -/
def read? (text : String) : Option (Bool × Decimal) :=
  match text.toList with
  | '-' :: cs => (magnitude? cs).map (true, ·)
  | cs => (magnitude? cs).map (false, ·)

/-! ### Digits

Digits are taken as long as there are any, so where they end must be told by what follows: a point,
an exponent mark or the end of the text. The lemmas about `IsNumeral` keep track of the parts that
the layouts cut digits into. -/

/-- There are digits, and nothing else. -/
structure IsNumeral (cs : List Char) : Prop where
  ne_nil : cs ≠ []
  isDigit : ∀ c ∈ cs, c.isDigit = true

/-- A number is written with digits. -/
theorem isNumeral_toDigits (n : Nat) : IsNumeral (Nat.toDigits 10 n) :=
  ⟨Nat.toDigits_ne_nil, fun _ hc => Nat.isDigit_of_mem_toDigits (by decide) (by decide) hc⟩

/-- Digits behind digits. -/
theorem IsNumeral.append {cs more : List Char} (h : IsNumeral cs)
    (hmore : ∀ c ∈ more, c.isDigit = true) : IsNumeral (cs ++ more) :=
  ⟨List.append_ne_nil_of_left_ne_nil h.ne_nil _,
    fun c hc => (List.mem_append.1 hc).elim (h.isDigit c) (hmore c)⟩

/-- Digits in front of digits. -/
theorem IsNumeral.prepend {cs more : List Char} (h : IsNumeral cs)
    (hmore : ∀ c ∈ more, c.isDigit = true) : IsNumeral (more ++ cs) :=
  ⟨List.append_ne_nil_of_right_ne_nil _ h.ne_nil,
    fun c hc => (List.mem_append.1 hc).elim (hmore c) (h.isDigit c)⟩

/-- Zeros are digits. -/
theorem isDigit_of_mem_zeros {n : Nat} : ∀ c ∈ List.replicate n '0', c.isDigit = true :=
  fun _ hc => List.eq_of_mem_replicate hc ▸ rfl

/-- One zero is a numeral. -/
theorem isNumeral_zero : IsNumeral (List.replicate 1 '0') :=
  ⟨List.cons_ne_nil _ _, isDigit_of_mem_zeros⟩

/-- The first digits of a numeral. -/
theorem IsNumeral.take {n : Nat} {cs : List Char} (h : IsNumeral cs) (hn : 0 < n) :
    IsNumeral (cs.take n) :=
  ⟨by simp [h.ne_nil, hn.ne'], fun c hc => h.isDigit c (List.mem_of_mem_take hc)⟩

/-- The digits behind the first ones, if there are any left. -/
theorem IsNumeral.drop {n : Nat} {cs : List Char} (h : IsNumeral cs) (hn : n < cs.length) :
    IsNumeral (cs.drop n) :=
  ⟨by simpa using hn, fun c hc => h.isDigit c (List.mem_of_mem_drop hc)⟩

/-- Digits that something else follows are taken, and nothing else is. -/
theorem IsNumeral.takeWhile_append {cs rest : List Char} (h : IsNumeral cs)
    (hrest : ∀ c ∈ rest.head?, c.isDigit = false) :
    (cs ++ rest).takeWhile Char.isDigit = cs ∧ (cs ++ rest).dropWhile Char.isDigit = rest := by
  rw [List.takeWhile_append_of_pos h.isDigit, List.dropWhile_append_of_pos h.isDigit]
  cases rest with
  | nil => exact ⟨List.append_nil cs, rfl⟩
  | cons c rest =>
    have hc : ¬ c.isDigit = true := by rw [hrest c rfl]; decide
    rw [List.takeWhile_cons_of_neg hc, List.dropWhile_cons_of_neg hc]
    exact ⟨List.append_nil cs, rfl⟩

/-- Digits are read as a whole number. -/
theorem whole?_eq_some {cs : List Char} (h : IsNumeral cs) :
    whole? cs = some (numeralValue cs) := by
  refine if_neg ?_
  rintro (hnil | hany)
  · exact h.ne_nil (List.isEmpty_iff.1 hnil)
  · obtain ⟨c, hc, hdigit⟩ := List.any_eq_true.1 hany
    rw [h.isDigit c hc] at hdigit
    cases hdigit

/-- A number is written with its digits to base ten. -/
theorem toList_toString (n : Nat) : (toString n).toList = Nat.toDigits 10 n := by
  rw [Nat.toString_eq_ofList_toDigits, String.toList_ofList]

/-- Digits stand for the number they were made from. -/
theorem numeralValue_toDigits (n : Nat) : numeralValue (Nat.toDigits 10 n) = n :=
  Nat.ofDigitChars_ten_toDigits

/-- Zeros behind digits make the number larger. -/
theorem numeralValue_append_zeros (cs : List Char) (n : Nat) :
    numeralValue (cs ++ List.replicate n '0') = 10 ^ n * numeralValue cs := by
  rw [numeralValue, Nat.ofDigitChars_append, Nat.ofDigitChars_replicate_zero, numeralValue]

/-- Zeros in front of digits do not change the number. -/
theorem numeralValue_zeros_append (cs : List Char) (n : Nat) :
    numeralValue (List.replicate n '0' ++ cs) = numeralValue cs := by
  rw [numeralValue, Nat.ofDigitChars_append, Nat.ofDigitChars_replicate_zero, Nat.mul_zero,
    numeralValue]

/-- A whole number that was written is read again. -/
theorem whole?_toString (n : Nat) : whole? (toString n).toList = some n := by
  rw [toList_toString, whole?_eq_some (isNumeral_toDigits n), numeralValue_toDigits]

/-- A whole number needs no sign. -/
theorem integer?_natural (n : Nat) : integer? (toString n).toList = some (n : Int) := by
  have hdigits := isNumeral_toDigits n
  rw [← toList_toString] at hdigits
  unfold integer?
  split
  · next cs hcs => exact absurd (hdigits.isDigit '-' (by rw [hcs]; exact .head _)) (by decide)
  · next cs hcs => exact absurd (hdigits.isDigit '+' (by rw [hcs]; exact .head _)) (by decide)
  · rw [whole?_toString]
    rfl

/-- An exponent that was written is read again, with its sign. -/
theorem integer?_toString (n : Int) : integer? (toString n).toList = some n := by
  cases n with
  | ofNat n => exact integer?_natural n
  | negSucc n =>
    have hsign : (toString (Int.negSucc n)).toList = '-' :: (toString (n + 1)).toList :=
      String.toList_append
    rw [hsign, integer?, whole?_toString]
    rfl

/-- An exponent may have a plus sign. -/
theorem integer?_plus (n : Nat) : integer? ('+' :: (toString n).toList) = some (n : Int) := by
  rw [integer?, whole?_toString]
  rfl

/-! ### Layouts

Every layout is digits, then perhaps a point with more digits, then perhaps an exponent. The digits
that are read together are those on both sides of the point, and the exponent is that of the last
one. -/

/-- An exponent does not begin with a digit. -/
theorem head?_of_exponent?_eq_some {rest : List Char} {exponent : Int}
    (h : exponent? rest = some exponent) : ∀ c ∈ rest.head?, c.isDigit = false := by
  unfold exponent? at h
  split at h
  · simp
  · simp
  · cases h

/-- Digits with something behind them that is read as a fraction and an exponent. -/
theorem magnitude?_append {whole cs fraction rest : List Char} {exponent : Int}
    (hwhole : IsNumeral whole) (hcs : ∀ c ∈ cs.head?, c.isDigit = false)
    (hfraction : fraction? cs = some (fraction, rest)) (hrest : exponent? rest = some exponent) :
    magnitude? (whole ++ cs)
      = some ⟨numeralValue (whole ++ fraction), exponent - fraction.length⟩ := by
  obtain ⟨htake, hdrop⟩ := hwhole.takeWhile_append hcs
  unfold magnitude?
  simp only [htake, hdrop, hfraction, Option.bind_some, hrest, Option.map_some]
  exact if_neg (by simpa using hwhole.ne_nil)

/-- Digits with a point, and perhaps an exponent behind them. -/
theorem magnitude?_point {whole fraction rest : List Char} {exponent : Int}
    (hwhole : IsNumeral whole) (hfraction : IsNumeral fraction)
    (hrest : exponent? rest = some exponent) :
    magnitude? (whole ++ '.' :: (fraction ++ rest))
      = some ⟨numeralValue (whole ++ fraction), exponent - fraction.length⟩ := by
  obtain ⟨htake, hdrop⟩ := hfraction.takeWhile_append (head?_of_exponent?_eq_some hrest)
  refine magnitude?_append hwhole (by simp) ?_ hrest
  rw [fraction?, htake, hdrop]
  exact if_neg (by simpa using hfraction.ne_nil)

/-- Digits with an exponent. -/
theorem magnitude?_exponent {whole rest : List Char} {exponent : Int} (hwhole : IsNumeral whole)
    (hrest : exponent? ('e' :: rest) = some exponent) :
    magnitude? (whole ++ 'e' :: rest) = some ⟨numeralValue whole, exponent⟩ := by
  have hmark : ∀ c ∈ ('e' :: rest).head?, c.isDigit = false := by simp
  simpa using magnitude?_append hwhole hmark rfl hrest

/-- A sign stands in front of a magnitude. A magnitude itself begins with a digit. -/
theorem read?_sign_append (negative : Bool) {text : String} {d : Decimal}
    (h : magnitude? text.toList = some d) :
    read? ((if negative then "-" else "") ++ text) = some (negative, d) := by
  cases negative with
  | true =>
    have hchars : ("-" ++ text).toList = '-' :: text.toList := by simp
    rw [if_pos rfl, read?, hchars]
    exact congrArg (Option.map (Prod.mk true)) h
  | false =>
    rw [if_neg Bool.false_ne_true, String.empty_append, read?]
    split
    · next cs hcs =>
      rw [hcs] at h
      cases h
    · exact congrArg (Option.map (Prod.mk false)) h

example : read? "-1.5e-7" = some (true, ⟨15, -8⟩) := by decide

end Decimal

namespace DecimalStyle

open Decimal

/-- Digits that are written positionally are read with their exponent. -/
theorem magnitude?_positional {digits : String} (h : IsNumeral digits.toList) (exponent : Int) :
    ∃ d, magnitude? (positional digits exponent).toList = some d ∧
      d.value = numeralValue digits.toList * 10 ^ exponent := by
  unfold positional
  dsimp only
  split
  · -- the zeros behind the digits take the place of the exponent
    next hexponent =>
    obtain ⟨zeros, rfl⟩ := Int.eq_ofNat_of_zero_le hexponent
    have htext : (digits ++ String.ofList (List.replicate (zeros : Int).toNat '0') ++ ".0").toList
        = digits.toList ++ List.replicate zeros '0' ++ '.' :: (List.replicate 1 '0' ++ []) := by
      simp
    rw [htext, magnitude?_point (h.append isDigit_of_mem_zeros) isNumeral_zero rfl]
    refine ⟨_, rfl, ?_⟩
    rw [value, numeralValue_append_zeros, numeralValue_append_zeros]
    push_cast
    rw [zpow_natCast]
    norm_num
    ring
  next hexponent =>
  split
  · -- the point stands among the digits
    next hpoint =>
    have hlength := String.length_toList (s := digits)
    generalize hfirst : ((digits.length : Int) + exponent).toNat = first
    have htext : ((digits.take first).toString ++ "." ++ (digits.drop first).toString).toList
        = digits.toList.take first ++ '.' :: (digits.toList.drop first ++ []) := by
      simp [String.Slice.toString_eq]
    rw [htext, magnitude?_point (h.take (by omega)) (h.drop (by omega)) rfl]
    refine ⟨_, rfl, ?_⟩
    have hback : (0 : Int) - (digits.toList.drop first).length = exponent := by
      rw [List.length_drop]
      omega
    rw [value, List.take_append_drop, hback]
  · -- the point stands in front of all digits, with zeros in between
    next hpoint =>
    have hlength := String.length_toList (s := digits)
    generalize hzeros : (-exponent - (digits.length : Int)).toNat = zeros
    have htext : ("0." ++ String.ofList (List.replicate zeros '0') ++ digits).toList
        = List.replicate 1 '0' ++ '.' :: (List.replicate zeros '0' ++ digits.toList ++ []) := by
      simp
    rw [htext, magnitude?_point isNumeral_zero (h.prepend isDigit_of_mem_zeros) rfl]
    refine ⟨_, rfl, ?_⟩
    have hback : (0 : Int) - (List.replicate zeros '0' ++ digits.toList).length = exponent := by
      rw [List.length_append, List.length_replicate]
      omega
    rw [value, numeralValue_zeros_append, numeralValue_zeros_append, hback]

/-- A mantissa with an exponent, as characters. -/
theorem toList_withExponent (mantissa sign : String) (power : Int) :
    (s!"{mantissa}e{sign}{power}").toList
      = mantissa.toList ++ 'e' :: (sign.toList ++ (toString power).toList) := by
  change (mantissa ++ "e" ++ sign ++ toString power).toList = _
  simp only [String.toList_append, List.append_assoc]
  rfl

/-- Digits that are written with an exponent are read with the exponent of their last digit. -/
theorem magnitude?_scientific (style : DecimalStyle) {digits : String}
    (h : IsNumeral digits.toList) (power : Int) :
    ∃ d, magnitude? (style.scientific digits power).toList = some d ∧
      d.value = numeralValue digits.toList * 10 ^ (power - (digits.length - 1)) := by
  have hlength := String.length_toList (s := digits)
  have hpower : exponent? ('e' :: ((if style.signedExponent ∧ 0 ≤ power then "+" else "").toList
      ++ (toString power).toList)) = some power := by
    rw [exponent?]
    split
    · next hplus =>
      obtain ⟨n, rfl⟩ := Int.eq_ofNat_of_zero_le hplus.2
      exact integer?_plus n
    · exact integer?_toString power
  unfold scientific
  dsimp only
  rw [toList_withExponent]
  split
  · -- one digit needs no point
    next hone =>
    have hlength_pos := List.length_pos_iff.2 h.ne_nil
    rw [magnitude?_exponent h hpower]
    refine ⟨_, rfl, ?_⟩
    rw [value, show power - ((digits.length : Int) - 1) = power by omega]
  · next hmany =>
    have htext : ((digits.take 1).toString ++ "." ++ (digits.drop 1).toString).toList
        = digits.toList.take 1 ++ '.' :: digits.toList.drop 1 := by
      simp [String.Slice.toString_eq]
    rw [htext, List.append_assoc, List.cons_append,
      magnitude?_point (h.take Nat.one_pos) (h.drop (by omega)) hpower]
    refine ⟨_, rfl, ?_⟩
    have hback : power - ((digits.toList.drop 1).length : Int) = power - (digits.length - 1) := by
      rw [List.length_drop]
      omega
    rw [value, List.take_append_drop, hback]

/-- Reading a decimal gives back the number that was written, whatever the style. -/
theorem magnitude?_positive (style : DecimalStyle) (d : Decimal) :
    ∃ d', magnitude? (style.positive d).toList = some d' ∧ d'.value = d.value := by
  have hdigits : (toString d.digits).toList = Nat.toDigits 10 d.digits := toList_toString d.digits
  have hnumeral : IsNumeral (toString d.digits).toList := hdigits ▸ isNumeral_toDigits d.digits
  have hvalue : numeralValue (toString d.digits).toList = d.digits := by
    rw [hdigits, numeralValue_toDigits]
  unfold positive value
  generalize toString d.digits = digits at hnumeral hvalue
  dsimp only
  rw [← hvalue]
  split
  · exact magnitude?_positional hnumeral d.exponent
  · have hread := magnitude?_scientific style hnumeral (d.exponent + digits.length - 1)
    rwa [show d.exponent + (digits.length : Int) - 1 - (digits.length - 1) = d.exponent by omega]
      at hread

open BinaryFormat

/-- A finite number is written with its sign, as a decimal that is rounded to its pattern and has as
few digits as possible, apart from zeros that the layout adds. -/
theorem read?_number (style : DecimalStyle) {f : BinaryFormat} (hbits : 0 < f.fractionBits)
    (hrange : f.leastExponent + 2 ^ f.exponentBits + f.fractionBits ≤ 4096) {pattern : Nat}
    (hpattern : pattern < 2 ^ (f.fractionBits + f.exponentBits + 1))
    (hfinite : f.isFinite pattern = true) :
    ∃ d s, read? (style.number f pattern) = some (f.isNegative pattern, d) ∧
      f.RoundsTo (f.isNegative pattern) d.value pattern ∧ d.value = s.value ∧
      FewestDigits (f.RoundsTo (f.isNegative pattern) · pattern) s := by
  simp only [roundsTo_isNegative_iff hpattern]
  unfold number
  dsimp only
  cases hzero : f.isZero pattern with
  -- zero has a text of its own
  | true =>
    have hlt := unsigned_lt_infinity hfinite
    rw [(unsigned_eq_zero_iff pattern).2 hzero] at hlt ⊢
    have hread : magnitude? "0.0".toList = some ⟨0, -1⟩ := rfl
    refine ⟨⟨0, -1⟩, ⟨0, 0⟩, read?_sign_append _ hread, ?_, ?_, fun _ _ n _ => ?_⟩
    · simpa [value] using isNearest_zero hlt
    · simp [value]
    · exact Nat.pow_pos (by decide)
  -- any other number is written with its shortest digits
  | false =>
    obtain ⟨d, hread, hvalue⟩ := magnitude?_positive style
      (shortest f style.tie (f.parts pattern))
    refine ⟨d, _, read?_sign_append _ hread, ?_, hvalue,
      fewestDigits_shortest hbits hrange style.tie hfinite hzero⟩
    rw [hvalue, ← holds_ofParts_unsigned_iff hbits hfinite hzero]
    exact (shortest_spec style.tie (significand_pos hfinite hzero)).1

end DecimalStyle
end ShaderBytecode
