import ShaderBytecode.Decimal.Shortest

/-!
# Writing decimals

A `DecimalStyle` says how the digits of a number are laid out: for which magnitudes they are written
positionally and for which with an exponent, whether a positive exponent has a sign, and which of
two equally near decimals is taken. A positional number always has a digit behind the point.
-/

namespace ShaderBytecode

structure DecimalStyle where
  /-- The least power of ten whose numbers are written positionally. -/
  positionalFrom : Int
  /-- The least power of ten from which on numbers are written with an exponent again. -/
  positionalBelow : Int
  /-- A positive exponent has a plus sign. -/
  signedExponent : Bool
  tie : Decimal.Tie
deriving DecidableEq, Repr

namespace DecimalStyle

/-- The text of a decimal whose digits are written positionally. -/
def positional (digits : String) (exponent : Int) : String :=
  let count : Int := digits.length
  if 0 ≤ exponent then digits ++ String.ofList (List.replicate exponent.toNat '0') ++ ".0"
  else if -exponent < count then
    let whole := (count + exponent).toNat
    (digits.take whole).toString ++ "." ++ (digits.drop whole).toString
  else "0." ++ String.ofList (List.replicate (-exponent - count).toNat '0') ++ digits

/-- The text of a decimal whose digits are written with an exponent. -/
def scientific (style : DecimalStyle) (digits : String) (power : Int) : String :=
  let mantissa :=
    if digits.length ≤ 1 then digits
    else (digits.take 1).toString ++ "." ++ (digits.drop 1).toString
  let sign := if style.signedExponent ∧ 0 ≤ power then "+" else ""
  s!"{mantissa}e{sign}{power}"

def positive (style : DecimalStyle) (d : Decimal) : String :=
  let digits := toString d.digits
  let power := d.exponent + digits.length - 1
  if style.positionalFrom ≤ power ∧ power < style.positionalBelow then
    positional digits d.exponent
  else style.scientific digits power

/-- The text of the number that a pattern stands for, in the fewest digits that read back. -/
def number (style : DecimalStyle) (f : BinaryFormat) (pattern : Nat) : String :=
  let sign := if f.isNegative pattern then "-" else ""
  if f.isZero pattern then sign ++ "0.0"
  else sign ++ style.positive (Decimal.shortest f style.tie (f.parts pattern))

end DecimalStyle
end ShaderBytecode
