import ShaderBytecode.Glsl.Expr
import ShaderBytecode.Proofs.Decimal.Reading

/-!
# Float literals

A float is written as a decimal if it is zero or has full precision, and as the bits of its pattern
otherwise:

    floatLiteral_exact : a literal either spells its bits out or is a shortest decimal that is
                         rounded to them and to nothing else; it spells out just the bits that are
                         subnormal, infinite or no number

The first of these cannot be read as a decimal, so the two kinds of literals do not overlap. The
reader of decimals is `Decimal.read?`, and it is not part of the program.
-/

namespace ShaderBytecode
namespace Glsl

open BinaryFormat Decimal

/-- The bits of a pattern, to be taken as a float. -/
def bitsText (bits : UInt32) : String := "uintBitsToFloat(" ++ Hex.literal bits.toNat ++ "u)"

/-- Bits that are spelled out are no decimal. -/
theorem read?_bitsText (bits : UInt32) : read? (bitsText bits) = none := by
  unfold bitsText
  generalize Hex.literal bits.toNat = digits
  obtain ⟨cs, hcs⟩ : ∃ cs, ("uintBitsToFloat(" ++ digits ++ "u)").toList = 'u' :: cs := by
    rw [String.toList_append, String.toList_append, List.append_assoc]
    exact ⟨_, rfl⟩
  rw [read?, hcs]
  rfl

/-- How bits are spelled out. -/
theorem text_uintBitsToFloat (bits : UInt32) :
    (Expr.call .uintBitsToFloat [.pattern bits]).text = bitsText bits := by
  change "uintBitsToFloat" ++ "(" ++ (Hex.literal bits.toNat ++ "u" ++ "") ++ ")" = bitsText bits
  unfold bitsText
  generalize Hex.literal bits.toNat = digits
  refine String.toList_inj.1 ?_
  simp

/-- The pattern of a number too small for full precision. -/
def IsSubnormal (f : BinaryFormat) (pattern : Nat) : Prop :=
  f.exponentField pattern = 0 ∧ f.fraction pattern ≠ 0

/-- The pattern of an infinity. -/
def IsInfinite (f : BinaryFormat) (pattern : Nat) : Prop :=
  f.exponentField pattern = f.topExponent ∧ f.fraction pattern = 0

/-- The pattern of what is no number. -/
def IsNoNumber (f : BinaryFormat) (pattern : Nat) : Prop :=
  f.exponentField pattern = f.topExponent ∧ f.fraction pattern ≠ 0

/-- A literal either spells its bits out or is a decimal with the sign of the bits, which is rounded
to them and to nothing else, and has as few digits as any decimal that is. Bits are spelled out just
if they are subnormal, infinite or no number. -/
theorem floatLiteral_exact (bits : UInt32) :
    ((Expr.floatLiteral bits).text = bitsText bits ↔
      IsSubnormal binary32 bits.toNat ∨ IsInfinite binary32 bits.toNat ∨
        IsNoNumber binary32 bits.toNat) ∧
    ((Expr.floatLiteral bits).text = bitsText bits ∨
      ∃ d s, read? (Expr.floatLiteral bits).text = some (binary32.isNegative bits.toNat, d) ∧
        (∀ pattern, binary32.RoundsTo (binary32.isNegative bits.toNat) d.value pattern ↔
          pattern = bits.toNat) ∧
        d.value = s.value ∧
        FewestDigits (binary32.RoundsTo (binary32.isNegative bits.toNat) · bits.toNat) s) := by
  have htop : binary32.topExponent = 255 := by decide
  -- a pattern is spelled out exactly if it is neither zero nor normal
  have hspelled : ¬ (binary32.isZero bits.toNat = true ∨ binary32.isNormal bits.toNat = true) ↔
      IsSubnormal binary32 bits.toNat ∨ IsInfinite binary32 bits.toNat ∨
        IsNoNumber binary32 bits.toNat := by
    simp only [isZero, isNormal, isFinite, htop, IsSubnormal, IsInfinite, IsNoNumber,
      Bool.and_eq_true, beq_iff_eq, bne_iff_ne]
    omega
  rw [← hspelled]
  unfold Expr.floatLiteral
  split
  · -- written in digits, which are read back
    next h =>
    have hfinite : binary32.isFinite bits.toNat = true := by
      simp only [isZero, isNormal, isFinite, htop, Bool.and_eq_true, beq_iff_eq, bne_iff_ne] at h ⊢
      omega
    obtain ⟨d, s, hread, hrounds, hvalue, hfewest⟩ := numberStyle.read?_number (f := binary32)
      (by decide) (by decide) bits.toNat_lt hfinite
    have honly (pattern : Nat) :
        binary32.RoundsTo (binary32.isNegative bits.toNat) d.value pattern ↔
          pattern = bits.toNat :=
      ⟨fun hpattern => hpattern.unique hrounds, fun heq => heq ▸ hrounds⟩
    refine ⟨⟨fun htext => ?_, fun hnot => absurd h hnot⟩,
      .inr ⟨d, s, hread, honly, hvalue, hfewest⟩⟩
    have hnone := read?_bitsText bits
    rw [← htext, Expr.text, hread] at hnone
    cases hnone
  · -- written as a pattern
    next h =>
    exact ⟨⟨fun _ => h, fun _ => text_uintBitsToFloat bits⟩, .inl (text_uintBitsToFloat bits)⟩

end Glsl
end ShaderBytecode
