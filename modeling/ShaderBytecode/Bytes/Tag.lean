import ShaderBytecode.Text.Hex

/-!
# Four-character tags

A tag names the kind of a chunk. Its four bytes are usually letters, but nothing guarantees it, so
`Tag.text` escapes every byte that is not a printable ASCII character.
-/

namespace ShaderBytecode

/-- Four bytes that name a kind of chunk. -/
structure Tag where
  first : UInt8
  second : UInt8
  third : UInt8
  fourth : UInt8
deriving DecidableEq, Repr, Inhabited

namespace Tag

def ascii (a b c d : Char) : Tag := ⟨a.toUInt8, b.toUInt8, c.toUInt8, d.toUInt8⟩

def toArray (t : Tag) : Array UInt8 := #[t.first, t.second, t.third, t.fourth]

def ofList? : List UInt8 → Option Tag
  | [a, b, c, d] => some ⟨a, b, c, d⟩
  | _ => none

/-- The tag read as a word, first byte lowest. -/
def word (t : Tag) : UInt32 :=
  t.first.toUInt32 + 256 * t.second.toUInt32 + 65536 * t.third.toUInt32
    + 16777216 * t.fourth.toUInt32

/-- A byte as text: the usual escapes for tab, line ends, quotes and the backslash, the character
itself where it is printable, and two hexadecimal digits otherwise. -/
def escapeByte (b : UInt8) : String :=
  if b = 9 then "\\t"
  else if b = 10 then "\\n"
  else if b = 13 then "\\r"
  else if b = 34 then "\\\""
  else if b = 39 then "\\'"
  else if b = 92 then "\\\\"
  else if 0x20 ≤ b ∧ b ≤ 0x7E then String.singleton (Char.ofUInt8 b)
  else "\\x" ++ Hex.pair b

def text (t : Tag) : String :=
  String.join (t.toArray.toList.map escapeByte)

end Tag
end ShaderBytecode
