import ShaderBytecode.Container.Basic

/-!
# Encoding containers

A container is written back with every chunk at its recorded position. The bytes are as many as the
header, the chunk table and the chunks need, and no fewer than the header asks for; what nothing
covers is zero. Later chunks are written over earlier ones.
-/

namespace ShaderBytecode
namespace Container

def encodedSize (c : Container) : Nat :=
  max (max (tableEnd c.chunks.length) ((c.chunks.map Chunk.endOffset).foldl max 0))
    c.header.size.toNat

/-- The header that is written: the size and the number of chunks are those of what is written. -/
def encodedHeader (c : Container) : Header :=
  { c.header with
    size := UInt32.ofNat c.encodedSize
    chunkCount := UInt32.ofNat c.chunks.length }

def tableBytes (c : Container) : Bytes :=
  (c.chunks.map fun chunk => Bytes.ofWord chunk.offset).foldl (· ++ ·) #[]

/-- The first chunk that reaches into the header or the chunk table, and its index. -/
def misplaced? (c : Container) : Option (Nat × Chunk) :=
  (c.chunks.zipIdx.find? fun p => p.1.offset.toNat < tableEnd c.chunks.length).map fun p =>
    (p.2, p.1)

def encode (c : Container) : Except ContainerError Bytes :=
  match c.misplaced? with
  | some (index, chunk) => .error (.chunkBounds index chunk.offset.toNat c.encodedSize)
  | none =>
    let front := c.encodedHeader.toBytes ++ c.tableBytes
    let empty := Bytes.overwrite (Array.replicate c.encodedSize 0) 0 front
    .ok <| c.chunks.foldl (fun out c => Bytes.overwrite out c.offset.toNat c.toBytes) empty

end Container
end ShaderBytecode
