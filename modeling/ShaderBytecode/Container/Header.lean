import ShaderBytecode.Bytes.Cursor

/-!
# The container header

Thirty-two bytes open a container: the magic tag, a digest of sixteen bytes, two version numbers,
the size of the whole container and the number of its chunks.
-/

namespace ShaderBytecode

/-- The fixed fields in front of a container's chunk table. -/
structure Header where
  magic : Tag
  /-- A checksum over the rest of the container, kept as it is. -/
  digest : Vector UInt8 16
  majorVersion : UInt16
  minorVersion : UInt16
  /-- The size of the container in bytes. -/
  size : UInt32
  chunkCount : UInt32
deriving DecidableEq, Repr

namespace Header

def magicTag : Tag := .ascii 'D' 'X' 'B' 'C'

def byteCount : Nat := 32

/-- The header that the first thirty-two bytes of a buffer hold. -/
def ofBytes (bytes : Bytes) : Header where
  magic := (Tag.ofList? (bytes.extract 0 4).toList).getD default
  digest := Vector.ofFn fun i => (bytes[4 + i.val]?).getD 0
  majorVersion := bytes.halfAt 20
  minorVersion := bytes.halfAt 22
  size := bytes.wordAt 24
  chunkCount := bytes.wordAt 28

def toBytes (h : Header) : Bytes :=
  h.magic.toArray ++ h.digest.toArray ++ Bytes.ofHalf h.majorVersion ++ Bytes.ofHalf h.minorVersion
    ++ Bytes.ofWord h.size ++ Bytes.ofWord h.chunkCount

@[simp] theorem size_toBytes (h : Header) : h.toBytes.size = byteCount := by
  simp [toBytes, Tag.toArray, byteCount]

/-- Read a header, all of it or nothing. -/
def read : Read Header := do
  let bytes ← Cursor.take byteCount
  return ofBytes bytes

end Header
end ShaderBytecode
