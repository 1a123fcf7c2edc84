/-!
# Hexadecimal text

Digits are lowercase. `Hex.digits` writes a number without leading zeros, `Hex.literal` puts the
mark `0x` in front of it, and `Hex.pair` writes a byte with exactly two digits.
-/

namespace ShaderBytecode
namespace Hex

/-- The lowercase digits of `n` in base sixteen, at least one. -/
def digits (n : Nat) : String := String.ofList (Nat.toDigits 16 n)

def literal (n : Nat) : String := "0x" ++ digits n

def pair (b : UInt8) : String :=
  String.ofList [Nat.digitChar (b.toNat / 16), Nat.digitChar (b.toNat % 16)]

end Hex
end ShaderBytecode
