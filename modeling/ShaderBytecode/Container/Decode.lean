import ShaderBytecode.Container.Basic
import ShaderBytecode.Notice

/-!
# Decoding containers

A container says how long it is; what stands behind it is not looked at. The chunk table behind the
header holds the position of each chunk. Chunks may stand in any order, overlap each other and leave
gaps, but none may reach into the header or the table, or past the end.

Chunks are framed and decoded in table order, and the first fault counts: a payload that cannot be
decoded hides what is wrong with the chunks behind it.
-/

namespace ShaderBytecode
namespace Container

/-- The header of a container, the bytes that belong to it, and the positions of its chunks. -/
structure Frame where
  header : Header
  data : Bytes
  offsets : List UInt32

def frame (data : Bytes) : Except ContainerError Frame := do
  let (header, _) ← (Header.read (Cursor.start data)).mapError .read
  if header.magic ≠ Header.magicTag then throw (.magic header.magic)
  let size := header.size.toNat
  if data.size < size then throw (.read (.endOfData size data.size))
  let data := data.extract 0 size
  let c ← ((Cursor.start data).seek Header.byteCount).mapError .read
  let (offsets, _) ← (Cursor.words header.chunkCount.toNat c).mapError .read
  return ⟨header, data, offsets⟩

/-- The chunk of a container that begins at an offset. -/
def chunkAt (data : Bytes) (tableEnd index : Nat) (offset : UInt32) :
    Except ContainerError Chunk :=
  let start := offset.toNat
  let outside : ContainerError := .chunkBounds index start data.size
  -- the head of the chunk must be inside before its size is read
  if start < tableEnd ∨ data.size < start + Chunk.headBytes then .error outside
  else
    let size := (data.wordAt (start + 4)).toNat
    if data.size < start + Chunk.headBytes + size then .error outside
    else
      let tag := (Tag.ofList? (data.extract start (start + 4)).toList).getD default
      let first := start + Chunk.headBytes
      .ok ⟨tag, offset, data.extract first (first + size)⟩

/-- The chunks at the given offsets, the first of which has the given index, until one does not
fit. -/
def chunksFrom (data : Bytes) (tableEnd : Nat) : (index : Nat) → (offsets : List UInt32) →
    Run ContainerError Chunk
  | _, [] => .done
  | index, offset :: offsets =>
    match chunkAt data tableEnd index offset with
    | .error e => .stopped e
    | .ok c => .cons c (chunksFrom data tableEnd (index + 1) offsets)

def Frame.chunks (f : Frame) : Run ContainerError Chunk :=
  chunksFrom f.data (tableEnd f.offsets.length) 0 f.offsets

/-- The payload of a chunk, or the fault with the tag of the chunk. -/
def payload (c : Chunk) : Except ContainerError Payload := c.payload.mapError (.chunk c.tag)

def decode (data : Bytes) : Except ContainerError Container := do
  let f ← frame data
  -- payloads in front of the first chunk that is out of bounds are decoded first, and their faults
  -- count
  let payloads ← f.chunks.completed.mapM payload
  let chunks ← f.chunks.result
  return ofPayloads f.header chunks payloads

/-! ### What decoding has to say -/

def chunkNotices (c : Chunk) : List Notice :=
  .chunk c.tag c.offset c.data.size ::
    match ChunkKind.ofTag c.tag with
    | .program =>
      (Program.skipped c.data).map fun (number, position) => .skippedOpcode number position
    | .unknown => [.unknownChunk c.tag]
    | _ => []

/-- The notices of decoding chunks until a payload cannot be decoded. -/
def noticesOfChunks : List Chunk → List Notice
  | [] => []
  | c :: cs =>
    chunkNotices c ++
      match c.payload with
      | .ok _ => noticesOfChunks cs
      | .error _ => []

/-- The notices of decoding a container, also one that cannot be decoded to its end. -/
def decodeNotices (data : Bytes) : List Notice :=
  match frame data with
  | .ok f => noticesOfChunks f.chunks.completed
  | .error _ => []

end Container
end ShaderBytecode
