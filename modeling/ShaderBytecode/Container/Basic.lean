import ShaderBytecode.Container.Header
import ShaderBytecode.Program.Decode
import ShaderBytecode.Resource.Decode
import ShaderBytecode.Signature.Decode

/-!
# Containers

A container is a header and a list of chunks. The tag of a chunk says what its payload is; the
payloads that are understood are kept decoded beside the chunks. Of several chunks of one kind the
last one counts, while `Container.chunk?` finds the first chunk with a tag.
-/

namespace ShaderBytecode

structure Chunk where
  tag : Tag
  /-- Where the chunk begins in the container. -/
  offset : UInt32
  data : Bytes
deriving DecidableEq, Repr

namespace Chunk

/-- The bytes of a chunk in front of its payload: the tag and the size of the payload. -/
def headBytes : Nat := 8

def endOffset (c : Chunk) : Nat := c.offset.toNat + headBytes + c.data.size

def toBytes (c : Chunk) : Bytes :=
  c.tag.toArray ++ Bytes.ofWord (UInt32.ofNat c.data.size) ++ c.data

end Chunk

/-! ### Payloads -/

inductive ChunkKind where
  | resources
  | program
  | inputSignature
  | outputSignature
  | patchConstantSignature
  /-- A kind that is expected in a container but not decoded. -/
  | uninterpreted
  | unknown
deriving DecidableEq, Repr

namespace ChunkKind

def decodedTags : List (Tag × ChunkKind) :=
  [(.ascii 'R' 'D' 'E' 'F', resources),
    (.ascii 'S' 'H' 'E' 'X', program), (.ascii 'S' 'H' 'D' 'R', program),
    (.ascii 'I' 'S' 'G' 'N', inputSignature), (.ascii 'I' 'S' 'G' '1', inputSignature),
    (.ascii 'O' 'S' 'G' 'N', outputSignature), (.ascii 'O' 'S' 'G' '1', outputSignature),
    (.ascii 'O' 'S' 'G' '5', outputSignature),
    (.ascii 'P' 'C' 'S' 'G', patchConstantSignature),
    (.ascii 'P' 'S' 'G' '1', patchConstantSignature)]

/-- The tags that are expected but not decoded. -/
def uninterpretedTags : List Tag :=
  [.ascii 'S' 'T' 'A' 'T', .ascii 'S' 'F' 'I' '0', .ascii 'I' 'F' 'C' 'E',
    .ascii 'S' 'D' 'B' 'G', .ascii 'S' 'P' 'D' 'B', .ascii 'I' 'L' 'D' 'B',
    .ascii 'I' 'L' 'D' 'N', .ascii 'P' 'R' 'I' 'V', .ascii 'R' 'T' 'S' '0',
    .ascii 'A' 'o' 'n' '9', .ascii 'X' 'N' 'A' 'S', .ascii 'X' 'N' 'A' 'P',
    .ascii 'H' 'A' 'S' 'H', .ascii 'D' 'X' 'I' 'L']

def ofTag (tag : Tag) : ChunkKind :=
  match decodedTags.lookup tag with
  | some kind => kind
  | none => if tag ∈ uninterpretedTags then uninterpreted else unknown

end ChunkKind

/-- The payload of a chunk, decoded where it is understood. -/
inductive Payload where
  | resources (d : ResourceDefinitions)
  | program (p : Program)
  | inputSignature (s : Signature)
  | outputSignature (s : Signature)
  | patchConstantSignature (s : Signature)
  | raw

def Chunk.payload (c : Chunk) : Except DecodeError Payload :=
  match ChunkKind.ofTag c.tag with
  | .resources => (ResourceDefinitions.decode c.data).map .resources
  | .program => (Program.decode c.data).map .program
  | .inputSignature => (Signature.decode c.tag c.data).map .inputSignature
  | .outputSignature => (Signature.decode c.tag c.data).map .outputSignature
  | .patchConstantSignature => (Signature.decode c.tag c.data).map .patchConstantSignature
  | .uninterpreted | .unknown => .ok .raw

/-! ### Containers -/

/-- A container of chunks, with the parts that were decoded from them. -/
structure Container where
  header : Header
  /-- All chunks, in the order of the chunk table. -/
  chunks : List Chunk
  resources : Option ResourceDefinitions
  inputSignature : Option Signature
  outputSignature : Option Signature
  patchConstantSignature : Option Signature
  program : Option Program

namespace Container

/-- What `part` gives for the last payload for which it gives anything. -/
def lastOf (payloads : List Payload) (part : Payload → Option α) : Option α :=
  (payloads.filterMap part).getLast?

def ofPayloads (header : Header) (chunks : List Chunk) (payloads : List Payload) : Container where
  header := header
  chunks := chunks
  resources := lastOf payloads fun p => match p with
    | .resources d => some d
    | _ => none
  inputSignature := lastOf payloads fun p => match p with
    | .inputSignature s => some s
    | _ => none
  outputSignature := lastOf payloads fun p => match p with
    | .outputSignature s => some s
    | _ => none
  patchConstantSignature := lastOf payloads fun p => match p with
    | .patchConstantSignature s => some s
    | _ => none
  program := lastOf payloads fun p => match p with
    | .program p => some p
    | _ => none

def chunk? (c : Container) (tag : Tag) : Option Chunk := c.chunks.find? (·.tag == tag)

/-- The position behind the chunk table of a container with `count` chunks. -/
def tableEnd (count : Nat) : Nat := Header.byteCount + 4 * count

end Container
end ShaderBytecode
