/-!
# Binary floating-point formats

A format packs a sign, an exponent and a fraction into one pattern of bits. `BinaryFormat.parts`
takes a pattern apart into a significand `m` and an exponent `q`, which stand for `m * 2 ^ q`, and
`BinaryFormat.round` finds the pattern whose value is nearest to such a product. A product halfway
between two values goes to the one with the even pattern; one too large for the format becomes
infinite.
-/

namespace ShaderBytecode

/-- How many bits of a pattern hold the fraction and the exponent; one more holds the sign. -/
structure BinaryFormat where
  fractionBits : Nat
  exponentBits : Nat
deriving DecidableEq, Repr

namespace BinaryFormat

def binary32 : BinaryFormat := ⟨23, 8⟩

def binary64 : BinaryFormat := ⟨52, 11⟩

/-- What is subtracted from an exponent field. -/
def bias (f : BinaryFormat) : Nat := (1 <<< (f.exponentBits - 1)) - 1

/-- The exponent field of infinities and of patterns that are no numbers. -/
def topExponent (f : BinaryFormat) : Nat := (1 <<< f.exponentBits) - 1

/-- The exponent `q` of the values of least magnitude. -/
def leastExponent (f : BinaryFormat) : Int := 1 - (f.bias : Int) - f.fractionBits

def isNegative (f : BinaryFormat) (pattern : Nat) : Bool :=
  pattern.testBit (f.fractionBits + f.exponentBits)

def exponentField (f : BinaryFormat) (pattern : Nat) : Nat :=
  (pattern >>> f.fractionBits) % (1 <<< f.exponentBits)

def fraction (f : BinaryFormat) (pattern : Nat) : Nat := pattern % (1 <<< f.fractionBits)

/-- A pattern of a number, neither infinite nor undefined. -/
def isFinite (f : BinaryFormat) (pattern : Nat) : Bool :=
  f.exponentField pattern != f.topExponent

def isZero (f : BinaryFormat) (pattern : Nat) : Bool :=
  f.exponentField pattern == 0 && f.fraction pattern == 0

/-- A pattern of a number whose significand has its full number of bits. -/
def isNormal (f : BinaryFormat) (pattern : Nat) : Bool :=
  f.exponentField pattern != 0 && f.isFinite pattern

/-- The magnitude of a number: `significand * 2 ^ exponent`. -/
structure Parts where
  significand : Nat
  exponent : Int
deriving DecidableEq, Repr

def parts (f : BinaryFormat) (pattern : Nat) : Parts :=
  let e := f.exponentField pattern
  if e = 0 then ⟨f.fraction pattern, f.leastExponent⟩
  else ⟨(1 <<< f.fractionBits) + f.fraction pattern, f.leastExponent + (e - 1)⟩

/-- `n / d` rounded to the nearest number, and to the even one of two. -/
def divideToEven (n d : Nat) : Nat :=
  let quotient := n / d
  let rest := 2 * (n % d)
  if rest < d ∨ (rest = d ∧ quotient % 2 = 0) then quotient else quotient + 1

def signPattern (f : BinaryFormat) (negative : Bool) : Nat :=
  if negative then 1 <<< (f.fractionBits + f.exponentBits) else 0

def infinity (f : BinaryFormat) : Nat := f.topExponent <<< f.fractionBits

/-- The pattern of the value nearest to a magnitude. -/
def roundMagnitude (f : BinaryFormat) (p : Parts) : Nat :=
  if p.significand = 0 then 0
  else
    let exponent := max f.leastExponent (p.exponent + Nat.log2 p.significand - f.fractionBits)
    let shift := p.exponent - exponent
    let significand :=
      if 0 ≤ shift then p.significand <<< shift.toNat
      else divideToEven p.significand (1 <<< (-shift).toNat)
    let field := (exponent - f.leastExponent).toNat
    -- The hidden bit of the significand counts one up in the exponent field.
    min f.infinity ((field <<< f.fractionBits) + significand)

/-- The pattern nearest to the number that a pattern of another format stands for. -/
def convert (source target : BinaryFormat) (pattern : Nat) : Nat :=
  let sign := target.signPattern (source.isNegative pattern)
  if source.isFinite pattern then sign + target.roundMagnitude (source.parts pattern)
  else if source.fraction pattern = 0 then sign + target.infinity
  else
    -- Not a number: the leading bits of the fraction are kept and the first of them is set.
    let fraction := (source.fraction pattern <<< target.fractionBits) >>> source.fractionBits
    sign + target.infinity + (fraction ||| (1 <<< (target.fractionBits - 1)))

end BinaryFormat
end ShaderBytecode
