import ShaderBytecode.Bytes.Basic
import ShaderBytecode.Bytes.Tag
import ShaderBytecode.Text.Utf8

/-!
# Reading a buffer from a position

A `Cursor` is a buffer with a position that never passes its end. A read either returns what it
found together with the cursor behind it, or fails and names the cause; the caller still holds the
old cursor, so a failed read moves nothing.

Strings end at a zero byte. `Cursor.terminated` delivers the bytes before it, and reading them as
UTF-8 is a step of its own, which may fail behind the terminator.
-/

namespace ShaderBytecode

inductive ReadError where
  /-- Fewer bytes are left than were asked for. -/
  | endOfData (needed available : Nat)
  /-- A position lies behind the end of the buffer. -/
  | outOfBounds (offset length : Nat)
  /-- No zero byte follows the start of a string. -/
  | unterminated (start : Nat)
  /-- A string is not UTF-8. -/
  | text (fault : Utf8.Fault)
deriving DecidableEq, Repr

def ReadError.message : ReadError → String
  | endOfData needed available =>
    s!"unexpected end of buffer: needed {needed} bytes but only {available} available"
  | outOfBounds offset length => s!"offset {offset} is outside buffer of length {length}"
  | unterminated start => s!"string at offset {start} missing null terminator"
  | text fault => s!"UTF-8 error: {fault.message}"

structure Cursor where
  data : Bytes
  position : Nat
  position_le : position ≤ data.size

/-- An action that reads from a cursor and moves it. -/
abbrev Read := StateT Cursor (Except ReadError)

namespace Cursor

def start (data : Bytes) : Cursor := ⟨data, 0, Nat.zero_le _⟩

def remaining (c : Cursor) : Nat := c.data.size - c.position

def isAtEnd (c : Cursor) : Bool := c.remaining == 0

def rest (c : Cursor) : Bytes := c.data.extract c.position c.data.size

theorem position_add_remaining (c : Cursor) : c.position + c.remaining = c.data.size :=
  Nat.add_sub_cancel' c.position_le

/-- The cursor at another position of the same buffer; the end itself is a position. -/
def seek (c : Cursor) (position : Nat) : Except ReadError Cursor :=
  if h : position ≤ c.data.size then .ok ⟨c.data, position, h⟩
  else .error (.outOfBounds position c.data.size)

def take (count : Nat) : Read Bytes := fun c =>
  if h : count ≤ c.remaining then
    .ok (c.data.extract c.position (c.position + count),
      ⟨c.data, c.position + count, by have := c.position_add_remaining; omega⟩)
  else .error (.endOfData count c.remaining)

/-- The next `count` bytes, without moving. -/
def peek (c : Cursor) (count : Nat) : Except ReadError Bytes :=
  (take count c).map Prod.fst

def u8 : Read UInt8 := do
  let bytes ← take 1
  return UInt8.ofNat (Bytes.number bytes.toList)

def u16 : Read UInt16 := do
  let bytes ← take 2
  return UInt16.ofNat (Bytes.number bytes.toList)

def u32 : Read UInt32 := do
  let bytes ← take 4
  return UInt32.ofNat (Bytes.number bytes.toList)

def tag : Read Tag := do
  let bytes ← take 4
  return (Tag.ofList? bytes.toList).getD default

/-- Byte counts are 64-bit numbers; this is the largest. -/
def maxByteCount : Nat := 0xFFFFFFFFFFFFFFFF

/-- The next `count` words, all or none. A count whose byte length is no 64-bit number asks for
more than any buffer holds. -/
def words (count : Nat) : Read (List UInt32) := fun c =>
  if 4 * count ≤ maxByteCount then
    (take (4 * count) c).map fun (bytes, c) => (Bytes.words bytes, c)
  else .error (.endOfData maxByteCount c.remaining)

/-- The bytes before the next zero byte, and the cursor behind that byte. -/
def terminated : Read Bytes := fun c =>
  match h : c.rest.findIdx? (· == 0) with
  | none => .error (.unterminated c.position)
  | some length =>
    .ok (c.data.extract c.position (c.position + length),
      ⟨c.data, c.position + length + 1, by
        have hlt : length < c.rest.size := (Array.findIdx?_eq_some_iff_getElem.1 h).1
        have := c.position_le
        simp only [rest, Array.size_extract, Nat.min_self] at hlt
        omega⟩)

/-- A string that ends at a zero byte. -/
def string : Read String := do
  let bytes ← terminated
  match Utf8.decode bytes with
  | .ok text => return text
  | .error fault => throw (.text fault)

/-- The string at another position of the buffer, without moving. -/
def stringAt (c : Cursor) (position : Nat) : Except ReadError String := do
  let c ← c.seek position
  return (← string c).1

end Cursor
end ShaderBytecode
