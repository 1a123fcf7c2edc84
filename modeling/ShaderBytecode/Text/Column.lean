import ShaderBytecode.Text.Hex

/-!
# Texts of a fixed width

Numbers in a table are filled up on the left. A text that is too long for its column stays whole.
-/

namespace ShaderBytecode
namespace Column

/-- A text filled up on the left. -/
def fill (filler : Char) (width : Nat) (text : String) : String :=
  String.ofList (text.toList.leftpad width filler)

/-- A number in decimal, right-aligned. -/
def number (width n : Nat) : String := fill ' ' width (toString n)

/-- A number in hexadecimal behind the mark `0x`, with four digits or more. -/
def address (n : Nat) : String := "0x" ++ fill '0' 4 (Hex.digits n)

/-- Flags as binary digits, four or more. -/
def flags (n : Nat) : String := fill '0' 4 (String.ofList (Nat.toDigits 2 n))

end Column
end ShaderBytecode
