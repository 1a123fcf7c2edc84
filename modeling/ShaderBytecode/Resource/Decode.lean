import ShaderBytecode.Resource.Definitions

/-!
# Decoding resource definitions

The payload is a web of records that point at each other by their position in the payload. Every
record is decoded from its own position, so none depends on where another one ended. Names stand
in a table of strings and are pointed at too.

Records of the older layout have fixed sizes. Newer definitions announce the sizes of their records,
which may be larger but never smaller than the fields that are read here.

Types point at the types of their members and could do so for ever or share records without end, so
the depth of nesting and the number of records that one payload may expand to are both limited.
-/

namespace ShaderBytecode
namespace ResourceDefinitions

structure RecordSizes where
  variableBytes : Nat
  typeBytes : Nat
  bindingBytes : Nat
deriving DecidableEq, Repr

namespace RecordSizes

/-- The sizes of the older layout, which are also the least sizes of the newer one. -/
def least : RecordSizes := ⟨24, 16, 32⟩

/-- The sizes that newer definitions announce, unless one is too small. -/
def ofAnnounced (a : AnnouncedSizes) : Except DecodeError RecordSizes := do
  let check (size : UInt32) (least : Nat) : Except DecodeError Nat :=
    if size.toNat < least then .error (.unsupported .recordSize size.toNat) else .ok size.toNat
  let variableBytes ← check a.variableBytes least.variableBytes
  let typeBytes ← check a.typeBytes least.typeBytes
  let bindingBytes ← check a.bindingBytes least.bindingBytes
  return ⟨variableBytes, typeBytes, bindingBytes⟩

end RecordSizes

def bufferRecordBytes : Nat := 24

def memberRecordBytes : Nat := 12

/-- A type record may stand this many levels below the type of a variable. -/
def maxTypeDepth : Nat := 16

/-- All the types of a payload may expand to this many records. -/
def maxTypeRecords : Nat := 65536

def announcementTag : Tag := .ascii 'R' 'D' '1' '1'

/-- Decoding that counts the type records it has expanded. -/
abbrev Counting := StateT Nat (Except DecodeError)

/-- Count one more type record. -/
def countType : Counting Unit := do
  modify (· + 1)
  let count ← get
  -- the count goes on from one variable to the next, and stops an expansion that grows too large
  if maxTypeRecords < count then throw (.unsupported .typeCount count)

/-! ### Records -/

/-- The fixed part of a type record: its shape without the name, and where its members stand. -/
structure TypeRecord where
  shape : TypeShape
  memberCount : Nat
  memberPosition : Nat

def typeFields : Decode TypeRecord := do
  let variableClass ← VariableClass.ofCode (← Cursor.u16)
  let base := ComponentBase.ofCode (← Cursor.u16)
  let rows ← Cursor.u16
  let columns ← Cursor.u16
  let elements ← Cursor.u16
  let memberCount ← Cursor.u16
  let memberPosition ← Cursor.u32
  return ⟨⟨variableClass, base, rows, columns, elements, none⟩, memberCount.toNat,
    memberPosition.toNat⟩

/-- The name of a type. It stands in the last word of a record of the newer layout. -/
def typeName (payload : Bytes) (sizes : RecordSizes) (position : Nat) :
    Except DecodeError (Option String) := do
  if RecordSizes.least.typeBytes < sizes.typeBytes then
    -- a record that is longer has its name in the last word, whatever stands between
    let name ← Decode.fieldsAt payload (position + sizes.typeBytes - 4) (Cursor.u32 : Read UInt32)
    if name = 0 then return none
    return some (← Decode.stringAt payload name.toNat)
  else return none

/-- The type at a position, which may be nested `levels - 1` levels deep. -/
def typeAt (payload : Bytes) (sizes : RecordSizes) :
    (levels : Nat) → (position : Nat) → Counting VariableType
  | 0, _ => throw (.unsupported .typeDepth (maxTypeDepth + 1))
  | levels + 1, position => do
    -- a record is counted before it is read
    countType
    let record ← Decode.fieldsAt payload position typeFields
    let name ← typeName payload sizes position
    let members ← Decode.repeated (fun index => do
      let (name, type, offset) ← Decode.fieldsAt payload
        (record.memberPosition + index * memberRecordBytes)
        (do return (← Cursor.u32, ← Cursor.u32, ← Cursor.u32) : Decode (UInt32 × UInt32 × UInt32))
      let name ← Decode.stringAt payload name.toNat
      let type ← typeAt payload sizes levels type.toNat
      return (name, offset, type)) 0 record.memberCount
    return .mk { record.shape with name := name } (.ofList members)

def variableAt (payload : Bytes) (sizes : RecordSizes) (position : Nat) : Counting Variable := do
  let (name, offset, size, flags, type, default) ← Decode.fieldsAt payload position
    (do return (← Cursor.u32, ← Cursor.u32, ← Cursor.u32, ← Cursor.u32, ← Cursor.u32,
      ← Cursor.u32) : Decode (UInt32 × UInt32 × UInt32 × UInt32 × UInt32 × UInt32))
  let name ← Decode.stringAt payload name.toNat
  let type ← typeAt payload sizes (maxTypeDepth + 1) type.toNat
  let default ←
    -- a value has as many bytes as the variable
    if default = 0 then pure none
    else some <$> Decode.fieldsAt payload default.toNat (Cursor.take size.toNat : Read Bytes)
  return ⟨name, offset, size, flags, type, default⟩

/-- Variables in ascending order of offset; variables at one offset keep their order. -/
def sortByOffset (vars : List Variable) : List Variable :=
  vars.mergeSort fun a b => a.offset ≤ b.offset

def bufferAt (payload : Bytes) (sizes : RecordSizes) (position : Nat) :
    Counting ConstantBuffer := do
  let (name, count, first, size, flags, kind) ← Decode.fieldsAt payload position
    (do return (← Cursor.u32, ← Cursor.u32, ← Cursor.u32, ← Cursor.u32, ← Cursor.u32,
      ← Cursor.u32) : Decode (UInt32 × UInt32 × UInt32 × UInt32 × UInt32 × UInt32))
  let name ← Decode.stringAt payload name.toNat
  let vars ← Decode.repeated
    (fun index => variableAt payload sizes (first.toNat + index * sizes.variableBytes)) 0
    count.toNat
  return ⟨name, sortByOffset vars, size, flags, .ofCode kind⟩

def bindingAt (payload : Bytes) (position : Nat) : Except DecodeError ResourceBinding := do
  let (name, binding) ← Decode.fieldsAt payload position (do
    let name ← Cursor.u32
    let kind := BindingKind.ofCode (← Cursor.u32)
    let returnType := ReturnType.ofCode (← Cursor.u32)
    let dimension := Dimension.ofViewCode (← Cursor.u32)
    let sampleCount ← Cursor.u32
    let bindPoint ← Cursor.u32
    let bindCount ← Cursor.u32
    let flags ← Cursor.u32
    return (name, fun name =>
      (⟨name, kind, returnType, dimension, sampleCount, bindPoint, bindCount, flags⟩ :
        ResourceBinding)) : Decode (UInt32 × (String → ResourceBinding)))
  return binding (← Decode.stringAt payload name.toNat)

/-! ### The payload -/

structure Preamble where
  bufferCount : Nat
  bufferPosition : Nat
  bindingCount : Nat
  bindingPosition : Nat
  minorVersion : UInt8
  majorVersion : UInt8
  stage : Stage
  flags : UInt32
  creatorPosition : Nat
  announced : Option AnnouncedSizes

/-- Decode the announced sizes, if the cursor stands in front of them. -/
def announcedSizes : Decode (Option AnnouncedSizes) := do
  let c ← get
  -- without the tag what follows belongs to something else, and nothing is taken
  if (c.peek 4).toOption != some announcementTag.toArray then return none
  let _ ← Cursor.take 4
  return some ⟨← Cursor.u32, ← Cursor.u32, ← Cursor.u32, ← Cursor.u32, ← Cursor.u32, ← Cursor.u32,
    ← Cursor.u32⟩

/-- The major version from which on definitions may announce their record sizes. -/
def announcingVersion : UInt8 := 5

def preamble : Decode Preamble := do
  let bufferCount ← Cursor.u32
  let bufferPosition ← Cursor.u32
  let bindingCount ← Cursor.u32
  let bindingPosition ← Cursor.u32
  let minorVersion ← Cursor.u8
  let majorVersion ← Cursor.u8
  let stage ← Stage.ofResourceCode (← Cursor.u16)
  let flags ← Cursor.u32
  let creatorPosition ← Cursor.u32
  let announced ← if announcingVersion ≤ majorVersion then announcedSizes else pure none
  return ⟨bufferCount.toNat, bufferPosition.toNat, bindingCount.toNat, bindingPosition.toNat,
    minorVersion, majorVersion, stage, flags, creatorPosition.toNat, announced⟩

def Preamble.recordSizes (p : Preamble) : Except DecodeError RecordSizes :=
  match p.announced with
  | none => .ok .least
  | some a => RecordSizes.ofAnnounced a

def decode (payload : Bytes) : Except DecodeError ResourceDefinitions := do
  let p ← Decode.fieldsAt payload 0 preamble
  let sizes ← p.recordSizes
  let creator ←
    if p.creatorPosition = 0 then pure "" else Decode.stringAt payload p.creatorPosition
  -- all buffers share one count
  let (buffers, _) ← (Decode.repeated
    (fun index => bufferAt payload sizes (p.bufferPosition + index * bufferRecordBytes))
    0 p.bufferCount : Counting (List ConstantBuffer)) 0
  let bindings ← Decode.repeated
    (fun index => bindingAt payload (p.bindingPosition + index * sizes.bindingBytes)) 0
    p.bindingCount
  return ⟨p.majorVersion, p.minorVersion, p.stage, p.flags, creator, p.announced, buffers,
    bindings⟩

end ResourceDefinitions
end ShaderBytecode
