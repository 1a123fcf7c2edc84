import ShaderBytecode.Program.Operand
import ShaderBytecode.Program.Token

/-!
# Decoding operands

An operand begins with a word of bit fields.

| bits | field |
|---|---|
| 0–1 | component count: none, one, four, many |
| 2–3 | selection mode: mask, swizzle, single component |
| 4–11 | mask, swizzle or component |
| 12–19 | register file |
| 20–21 | number of indices |
| 22–30 | three bits for the representation of each index |
| 31 | an extension follows |

Behind it stand the extensions, the indices, each with the operand it is relative to, and for
literals their values.

Operands may nest through their indices. Hardware knows one level; a few more are accepted.
-/

namespace ShaderBytecode
namespace Operand

open TokenRead

/-- An operand may stand this many levels below the operand of an instruction. -/
def maxRelativeDepth : Nat := 4

/-! ### The first word -/

/-- The component count and selection that a first word gives. -/
def componentsOf (token : UInt32) : Except DecodeError Components := do
  match ← Token.bits 0 2 token with
  | 0 => return .zero
  | 1 => return .one
  | 2 =>
    match ← Token.bits 2 2 token with
    | 0 => return .four (.mask (BitVec.ofNat 4 (← Token.bits 4 4 token)))
    | 1 =>
      let x ← Token.bits 4 2 token
      let y ← Token.bits 6 2 token
      let z ← Token.bits 8 2 token
      let w ← Token.bits 10 2 token
      return .four (.swizzle (.ofNat x) (.ofNat y) (.ofNat z) (.ofNat w))
    | 2 => return .four (.single (.ofNat (← Token.bits 4 2 token)))
    | mode => throw (.unsupported .componentSelection mode)
  | _ => return .many

def fileOf (token : UInt32) : Except DecodeError RegisterFile := do
  let number ← Token.bits 12 8 token
  match RegisterFile.ofNumber? number with
  | some file => return file
  | none => throw (.unsupported .operandType number)

def representationOf (token : UInt32) (slot : Nat) : Except DecodeError IndexRepresentation := do
  let code ← Token.bits (22 + 3 * slot) 3 token
  match IndexRepresentation.all[code]? with
  | some representation => return representation
  | none => throw (.unsupported .indexRepresentation code)

/-! ### Extensions -/

structure Extension where
  modifier : OperandModifier
  minPrecision : MinPrecision
  nonUniform : Bool
deriving DecidableEq, Repr

def Extension.none : Extension := ⟨.none, .full, false⟩

/-- The only kind of extension that is defined. -/
def modifierExtension : Nat := 1

/-- What stands after one more extension word; a word of another kind adds nothing. -/
def Extension.next (e : Extension) (token : UInt32) : Except DecodeError Extension := do
  if (← Token.bits 0 6 token) ≠ modifierExtension then return e
  let code ← Token.bits 6 8 token
  let some modifier := OperandModifier.all[code]?
    | throw (.unsupported .operandModifier code)
  let precision ← Token.bits 14 3 token
  let nonUniform ← Token.bit 17 token
  return ⟨modifier, .ofCode (UInt32.ofNat precision), nonUniform⟩

def extensionsFrom (e : Extension) : (words : List UInt32) → (position : Nat) →
    Except DecodeError (Extension × TokenStream)
  | [], position => .error (.operandOverrun position)
  | token :: words, position => do
    let e ← e.next token
    if Token.isExtended token then extensionsFrom e words (position + 1)
    else return (e, ⟨words, position + 1⟩)

def extensions (token : UInt32) : TokenRead Extension := fun s =>
  if Token.isExtended token then extensionsFrom .none s.words s.position
  else .ok (.none, s)

/-! ### Indices and literals -/

def index (nested : TokenRead Operand) (representation : IndexRepresentation) :
    TokenRead Index := do
  match representation with
  | .immediate32 => return ⟨representation, (← word).toUInt64, none⟩
  | .immediate64 => return ⟨representation, ← wide, none⟩
  | .relative => return ⟨representation, 0, some (← nested)⟩
  | .immediate32PlusRelative =>
    let value ← word
    return ⟨representation, value.toUInt64, some (← nested)⟩
  | .immediate64PlusRelative =>
    let value ← wide
    return ⟨representation, value, some (← nested)⟩

/-- Read `count` indices, the first of which is at `slot`. -/
def indicesFrom (nested : TokenRead Operand) (token : UInt32) (slot : Nat) :
    (count : Nat) → TokenRead Indices
  | 0 => return .nil
  | count + 1 => do
    let representation ← representationOf token slot
    let i ← index nested representation
    return .cons i (← indicesFrom nested token (slot + 1) count)

def literalCount : Components → Nat
  | .one => 1
  | .four _ => 4
  | .zero | .many => 0

/-- Read the literal values of an operand, if its file is one of literals. -/
def literalValues (file : RegisterFile) (components : Components) :
    TokenRead (Option Literals) := do
  match file with
  | .immediate32 => return some (.bits32 (← TokenRead.words (literalCount components)))
  | .immediate64 => return some (.bits64 (← TokenRead.wides (literalCount components)))
  | _ => return none

/-! ### Operands -/

/-- Read an operand that may have `levels - 1` levels of operands within it. -/
def decodeNested : (levels : Nat) → TokenRead Operand
  | 0 => throw (.unsupported .relativeDepth (maxRelativeDepth + 1))
  | levels + 1 => do
    let token ← word
    let components ← componentsOf token
    let file ← fileOf token
    let dimension ← Token.bits 20 2 token
    let extension ← extensions token
    let indices ← indicesFrom (decodeNested levels) token 0 dimension
    let literals ← literalValues file components
    return .mk ⟨token, file, components, extension.modifier, extension.minPrecision,
      extension.nonUniform⟩ indices literals

def decode : TokenRead Operand := decodeNested (maxRelativeDepth + 1)

/-! ### Using up words -/

theorem extensionsFrom_length_le {e e' : Extension} {words : List UInt32} {position : Nat}
    {s : TokenStream} (h : extensionsFrom e words position = .ok (e', s)) :
    s.words.length ≤ words.length := by
  induction words generalizing e position with
  | nil => cases h
  | cons token words ih =>
    simp only [extensionsFrom, Bind.bind, Except.bind] at h
    split at h
    · cases h
    · split at h
      · exact Nat.le_succ_of_le (ih h)
      · cases h; exact Nat.le_succ _

theorem advances_extensions (token : UInt32) : Advances 0 (extensions token) := by
  intro s e s' h
  unfold extensions at h
  split at h
  · exact extensionsFrom_length_le h
  · cases h; exact Nat.le_refl _

theorem advances_index {nested : TokenRead Operand} (h : Advances 0 nested)
    (representation : IndexRepresentation) : Advances 0 (index nested representation) := by
  have hw : Advances 0 word := advances_word.mono (Nat.zero_le _)
  have hd : Advances 0 wide := advances_wide.mono (Nat.zero_le _)
  cases representation with
  | immediate32 => exact hw.bind_zero fun _ => advances_pure _
  | immediate64 => exact hd.bind_zero fun _ => advances_pure _
  | relative => exact h.bind_zero fun _ => advances_pure _
  | immediate32PlusRelative => exact hw.bind_zero fun _ => h.bind_zero fun _ => advances_pure _
  | immediate64PlusRelative => exact hd.bind_zero fun _ => h.bind_zero fun _ => advances_pure _

theorem advances_indicesFrom {nested : TokenRead Operand} (h : Advances 0 nested)
    (token : UInt32) (slot : Nat) : ∀ count, Advances 0 (indicesFrom nested token slot count)
  | 0 => advances_pure _
  | count + 1 => (advances_lift _).bind_zero fun _ => (advances_index h _).bind_zero fun _ =>
      (advances_indicesFrom h token (slot + 1) count).bind_zero fun _ => advances_pure _

theorem advances_literalValues (file : RegisterFile) (components : Components) :
    Advances 0 (literalValues file components) := by
  unfold literalValues
  split
  · exact (advances_words _).bind_zero fun _ => advances_pure _
  · exact (advances_wides _).bind_zero fun _ => advances_pure _
  · exact advances_pure _

theorem advances_decodeNested : ∀ levels, Advances 1 (decodeNested levels)
  | 0 => advances_throw _ _
  | levels + 1 => advances_word.bind fun _ =>
      (advances_lift _).bind_zero fun _ => (advances_lift _).bind_zero fun _ =>
      (advances_lift _).bind_zero fun _ => (advances_extensions _).bind_zero fun _ =>
      (advances_indicesFrom ((advances_decodeNested levels).mono (Nat.zero_le _)) _ _ _).bind_zero
        fun _ => (advances_literalValues _ _).bind_zero fun _ => advances_pure _

/-- An operand takes at least one word. -/
theorem advances_decode : Advances 1 decode := advances_decodeNested _

end Operand
end ShaderBytecode
