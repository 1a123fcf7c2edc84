/-!
# UTF-8 text

`Utf8.decode` accepts exactly the well formed byte sequences. For any other sequence
`Utf8.firstFault` names the byte at which the longest well formed beginning ends and says how the
sequence there goes wrong: either the bytes that could still begin a character are followed by one
that cannot continue it, or the text ends inside a character.
-/

namespace ShaderBytecode
namespace Utf8

/-- Where text stops being UTF-8. `length` is the number of bytes at `index` that could have begun
a character, at least one, and is absent when the text ends inside a character. -/
structure Fault where
  index : Nat
  length : Option Nat
deriving DecidableEq, Repr

def Fault.message (f : Fault) : String :=
  match f.length with
  | some n => s!"invalid utf-8 sequence of {n} bytes from index {f.index}"
  | none => s!"incomplete utf-8 byte sequence from index {f.index}"

/-- The bytes allowed after the lead byte of a character, in order: the first of them depends on
the lead byte, which excludes overlong forms, surrogates and values past U+10FFFF. -/
def followers (lead : UInt8) : Option (List (UInt8 × UInt8)) :=
  let any : UInt8 × UInt8 := (0x80, 0xBF)
  if lead < 0x80 then some []
  else if lead < 0xC2 then none
  else if lead < 0xE0 then some [any]
  else if lead = 0xE0 then some [(0xA0, 0xBF), any]
  else if lead = 0xED then some [(0x80, 0x9F), any]
  else if lead < 0xF0 then some [any, any]
  else if lead = 0xF0 then some [(0x90, 0xBF), any, any]
  else if lead < 0xF4 then some [any, any, any]
  else if lead = 0xF4 then some [(0x80, 0x8F), any, any]
  else none

/-- How many of `ranges` the bytes satisfy in turn: `.ok` with the bytes that are left when all of
them do, otherwise the fault of a character starting at `index` of which `seen` bytes fit. -/
def follow (index : Nat) : (seen : Nat) → List (UInt8 × UInt8) → List UInt8 →
    Except Fault (List UInt8)
  | _, [], bytes => .ok bytes
  | _, _ :: _, [] => .error ⟨index, none⟩
  | seen, (lo, hi) :: ranges, b :: bytes =>
    if lo ≤ b ∧ b ≤ hi then follow index (seen + 1) ranges bytes
    else .error ⟨index, some seen⟩

theorem follow_length_le {index seen : Nat} {ranges : List (UInt8 × UInt8)}
    {bytes rest : List UInt8} (h : follow index seen ranges bytes = .ok rest) :
    rest.length ≤ bytes.length := by
  induction ranges generalizing seen bytes with
  | nil => simp only [follow, Except.ok.injEq] at h; simp [h]
  | cons r ranges ih =>
    cases bytes with
    | nil => simp [follow] at h
    | cons b bytes =>
      simp only [follow] at h
      split at h
      · exact Nat.le_succ_of_le (ih h)
      · simp at h

/-- The first fault of `bytes`, which stand at `index` of the text. -/
def faultFrom (index : Nat) : List UInt8 → Option Fault
  | [] => none
  | lead :: bytes =>
    match followers lead with
    | none => some ⟨index, some 1⟩
    | some ranges =>
      match h : follow index 1 ranges bytes with
      | .error f => some f
      | .ok rest => faultFrom (index + 1 + ranges.length) rest
termination_by bytes => bytes.length
decreasing_by exact Nat.lt_succ_of_le (follow_length_le h)

def firstFault (bytes : List UInt8) : Option Fault := faultFrom 0 bytes

def decode (bytes : Array UInt8) : Except Fault String :=
  match String.fromUTF8? ⟨bytes⟩ with
  | some text => .ok text
  | none => .error ((firstFault bytes.toList).getD ⟨0, some 1⟩)

def encode (text : String) : Array UInt8 := text.toUTF8.data

end Utf8
end ShaderBytecode
