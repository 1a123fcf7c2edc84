import ShaderBytecode.Signature.Basic

/-!
# Decoding signatures

A signature payload gives the number of its elements and where their records begin. The fields that
all layouts share take 24 bytes; the tag of the chunk says what stands around them.

| tags | bytes | record |
|---|---|---|
| `ISGN`, `OSGN`, `PCSG` | 24 | the shared fields |
| `OSG5` | 28 | the stream, the shared fields |
| `ISG1`, `OSG1`, `PSG1` | 32 | the stream, the shared fields, the minimum precision |
-/

namespace ShaderBytecode
namespace Signature

inductive Layout where
  | basic
  | stream
  | streamPrecision
deriving DecidableEq, Repr

namespace Layout

def ofTag? (tag : Tag) : Option Layout :=
  if tag ∈ [Tag.ascii 'I' 'S' 'G' 'N', Tag.ascii 'O' 'S' 'G' 'N', Tag.ascii 'P' 'C' 'S' 'G'] then
    some basic
  else if tag = Tag.ascii 'O' 'S' 'G' '5' then some stream
  else if tag ∈ [Tag.ascii 'I' 'S' 'G' '1', Tag.ascii 'O' 'S' 'G' '1', Tag.ascii 'P' 'S' 'G' '1']
    then some streamPrecision
  else none

def recordBytes : Layout → Nat
  | basic => 24
  | stream => 28
  | streamPrecision => 32

end Layout

/-- Decode the fields of a record. The name stands elsewhere, so what is decoded is where it stands
and the element it completes. -/
def elementFields (layout : Layout) : Decode (UInt32 × (String → SignatureElement)) := do
  -- the older layout has no streams, and its elements are in the first
  let stream ← match layout with
    | .basic => pure 0
    | .stream | .streamPrecision => (Cursor.u32 : Read UInt32)
  let name ← Cursor.u32
  let semanticIndex ← Cursor.u32
  let systemValue := SystemValue.ofCode (← Cursor.u32)
  let componentType := ComponentType.ofCode (← Cursor.u32)
  let register ← Cursor.u32
  let mask ← Cursor.u8
  let accessMask ← Cursor.u8
  -- the last two bytes are unused
  let _ ← Cursor.u16
  let minPrecision ← match layout with
    | .streamPrecision => MinPrecision.ofCode <$> (Cursor.u32 : Read UInt32)
    | .basic | .stream => pure .full
  return (name, fun name =>
    ⟨name, semanticIndex, systemValue, componentType, register, mask, accessMask, stream,
      minPrecision⟩)

def elementAt (payload : Bytes) (layout : Layout) (position : Nat) :
    Except DecodeError SignatureElement := do
  let (name, element) ← Decode.fieldsAt payload position (elementFields layout)
  return element (← Decode.stringAt payload name.toNat)

def decode (tag : Tag) (payload : Bytes) : Except DecodeError Signature := do
  let some layout := Layout.ofTag? tag
    | throw (.unsupported .signatureTag tag.word.toNat)
  let (count, first) ← Decode.fieldsAt payload 0
    (do return (← Cursor.u32, ← Cursor.u32) : Decode (UInt32 × UInt32))
  let elements ← Decode.repeated
    (fun index => elementAt payload layout (first.toNat + index * layout.recordBytes)) 0
    count.toNat
  return ⟨elements⟩

end Signature
end ShaderBytecode
