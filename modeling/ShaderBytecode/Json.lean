import ShaderBytecode.Decimal.Style
import ShaderBytecode.Text.Hex

/-!
# JSON documents

A document keeps the fields of its objects in order. `Json.pretty` writes it over several lines:
every item and field stands on a line of its own, two blanks further in than what it belongs to, and
empty lists and objects stay on one line.
-/

namespace ShaderBytecode

inductive Json where
  | null
  | bool (b : Bool)
  | number (n : Int)
  /-- The number that a pattern of 32 bits stands for. -/
  | float32 (pattern : UInt32)
  | text (s : String)
  | list (items : List Json)
  | object (fields : List (String × Json))

namespace Json

def ofOption (f : α → Json) : Option α → Json
  | none => null
  | some a => f a

def ofList (f : α → Json) (as : List α) : Json := list (as.map f)

def nat (n : Nat) : Json := number n

/-- An object with a single field. -/
def tagged (name : String) (j : Json) : Json := object [(name, j)]

/-! ### Writing -/

/-- Numbers are written positionally from `0.000001` up to below ten to the thirteenth; larger
exponents have a sign. -/
def numberStyle : DecimalStyle := ⟨-6, 13, true, .even⟩

/-- The text of a floating-point number. What is not a number has none. -/
def floatText (pattern : UInt32) : String :=
  if BinaryFormat.binary32.isFinite pattern.toNat then
    numberStyle.number .binary32 pattern.toNat
  else "null"

def escapeChar (c : Char) : String :=
  if c = '"' then "\\\""
  else if c = '\\' then "\\\\"
  else if c = '\x08' then "\\b"
  else if c = '\x0c' then "\\f"
  else if c = '\n' then "\\n"
  else if c = '\r' then "\\r"
  else if c = '\t' then "\\t"
  else if c < ' ' then "\\u00" ++ Hex.pair c.toUInt8
  else String.singleton c

def quoted (s : String) : String := "\"" ++ String.join (s.toList.map escapeChar) ++ "\""

def lineStart (depth : Nat) : String := "\n" ++ String.ofList (List.replicate (2 * depth) ' ')

mutual

def write (depth : Nat) : Json → String
  | null => "null"
  | bool b => if b then "true" else "false"
  | number n => toString n
  | float32 pattern => floatText pattern
  | text s => quoted s
  | list [] => "[]"
  | list (item :: items) =>
    "[" ++ lineStart (depth + 1) ++ write (depth + 1) item ++ writeItems depth items
      ++ lineStart depth ++ "]"
  | object [] => "\x7b\x7d"
  | object ((name, item) :: fields) =>
    "\x7b" ++ lineStart (depth + 1) ++ quoted name ++ ": " ++ write (depth + 1) item
      ++ writeFields depth fields ++ lineStart depth ++ "\x7d"

/-- The items of a list behind the first. -/
def writeItems (depth : Nat) : List Json → String
  | [] => ""
  | item :: items =>
    "," ++ lineStart (depth + 1) ++ write (depth + 1) item ++ writeItems depth items

/-- The fields of an object behind the first. -/
def writeFields (depth : Nat) : List (String × Json) → String
  | [] => ""
  | (name, item) :: fields =>
    "," ++ lineStart (depth + 1) ++ quoted name ++ ": " ++ write (depth + 1) item
      ++ writeFields depth fields

end

/-- A document over several lines. -/
def pretty (j : Json) : String := write 0 j

end Json
end ShaderBytecode
