import ShaderBytecode.Bytes.Cursor

/-!
# Why decoding fails

A payload that cannot be decoded has one cause, a `DecodeError`. A container adds the causes of its
own framing and says in which chunk a payload failed. Each cause has one wording.
-/

namespace ShaderBytecode

/-- The fields whose values a decoder may not know. -/
inductive Feature where
  | programType
  | resourceProgramType
  | recordSize
  | typeDepth
  | typeCount
  | variableClass
  | signatureTag
  | relativeDepth
  | operandType
  | operandModifier
  | indexRepresentation
  | componentSelection
  | operandCount
deriving DecidableEq, Repr

def Feature.text : Feature → String
  | programType => "program type"
  | resourceProgramType => "RDEF program type"
  | recordSize => "RDEF record size"
  | typeDepth => "type nesting depth"
  | typeCount => "type record count"
  | variableClass => "variable class"
  | signatureTag => "signature chunk tag"
  | relativeDepth => "relative operand depth"
  | operandType => "operand type"
  | operandModifier => "operand modifier"
  | indexRepresentation => "operand index representation"
  | componentSelection => "component selection mode"
  | operandCount => "operand count"

inductive DecodeError where
  | read (cause : ReadError)
  /-- A field holds a value outside its known range. -/
  | unsupported (feature : Feature) (value : Nat)
  /-- An instruction is empty or runs past the program. -/
  | instructionLength (position length available : Nat)
  /-- An operand needs more words than its instruction has. -/
  | operandOverrun (position : Nat)
  /-- An immediate constant buffer is not made of whole rows. -/
  | immediateBuffer (byteCount : Nat)
  /-- A bit field was asked for that does not lie within a word. -/
  | bitRange (shift width : Nat)
deriving DecidableEq, Repr

def DecodeError.message : DecodeError → String
  | read cause => cause.message
  | unsupported feature value => s!"unsupported {feature.text}: {value}"
  | instructionLength position length available =>
    s!"instruction at dword {position} has invalid length {length} "
      ++ s!"(program has {available} dwords)"
  | operandOverrun position =>
    s!"operand at dword {position} runs past the end of its instruction"
  | immediateBuffer byteCount =>
    s!"immediate constant buffer of {byteCount} bytes is not a multiple of 16"
  | bitRange shift width =>
    s!"internal decoder error: bitfield {shift}+{width} exceeds 32 bits"

inductive ContainerError where
  | read (cause : ReadError)
  /-- The buffer does not begin with the magic tag. -/
  | magic (found : Tag)
  /-- A chunk lies outside the room that the header leaves for chunks. -/
  | chunkBounds (index offset length : Nat)
  /-- The payload of a chunk could not be decoded. -/
  | chunk (tag : Tag) (cause : DecodeError)
deriving DecidableEq, Repr

def ContainerError.message : ContainerError → String
  | read cause => cause.message
  | magic found => s!"invalid DXBC magic: expected 'DXBC', got {found.text}"
  | chunkBounds index offset length =>
    s!"chunk {index} at offset {offset} exceeds container length {length}"
  | chunk tag cause => s!"invalid {tag.text} chunk: {cause.message}"

/-- An action that decodes a payload from a cursor. -/
abbrev Decode := StateT Cursor (Except DecodeError)

/-- A read is a decoding step that fails for the reason the read fails. -/
instance : MonadLift Read Decode where
  monadLift action := fun c => (action c).mapError .read

/-- Decode the fields that stand at a position of a payload. -/
def Decode.fieldsAt (payload : Bytes) (position : Nat) (fields : Decode α) :
    Except DecodeError α := do
  let c ← ((Cursor.start payload).seek position).mapError .read
  return (← fields c).1

def Decode.stringAt (payload : Bytes) (position : Nat) : Except DecodeError String :=
  ((Cursor.start payload).stringAt position).mapError .read

/-- Decode `count` items, the item at an index knowing its index, until one fails. -/
def Decode.repeated [Monad m] (item : Nat → m α) (index : Nat) : (count : Nat) → m (List α)
  | 0 => pure []
  | count + 1 => do
    let a ← item index
    return a :: (← repeated item (index + 1) count)

end ShaderBytecode
