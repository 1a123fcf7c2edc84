import ShaderBytecode.Container.Basic
import ShaderBytecode.Notice

/-!
# Finding containers in larger files

Files hold containers at any position. Where the magic tag stands, a container is assumed only if
the header behind it describes one that fits: the chunk table and all chunks, by their sizes alone,
lie within the declared size, and that within the file. Payloads are not looked at.

Behind a container the search goes on after its end, behind a tag without one at the next byte.
-/

namespace ShaderBytecode
namespace Container

/-- The chunk at an offset lies between the chunk table and the end of the container. -/
def chunkFits (data : Bytes) (tableEnd size offset : Nat) : Bool :=
  tableEnd ≤ offset && offset + Chunk.headBytes ≤ size
    && offset + Chunk.headBytes + (data.wordAt (offset + 4)).toNat ≤ size

/-- The declared length of the container at the start of a buffer, if its header, chunk table and
chunks fit. -/
def framedLength? (data : Bytes) : Option Nat :=
  if data.size < Header.byteCount then none
  else
    let header := Header.ofBytes data
    let size := header.size.toNat
    let count := header.chunkCount.toNat
    let tableEnd := tableEnd count
    if data.size < size ∨ size < tableEnd then none
    else if (List.range count).all fun index =>
        chunkFits data tableEnd size (data.wordAt (Header.byteCount + 4 * index)).toNat then
      some size
    else none

theorem byteCount_le_of_framedLength? {data : Bytes} {n : Nat} (h : framedLength? data = some n) :
    Header.byteCount ≤ n := by
  unfold framedLength? at h
  split at h
  · cases h
  · dsimp only at h
    split at h
    · cases h
    · next hn =>
      split at h
      · cases h
        simp only [tableEnd] at hn
        omega
      · cases h

def magicAt (data : Bytes) (position : Nat) : Bool :=
  data.extract position (position + 4) == Header.magicTag.toArray

inductive Candidate where
  | accepted (start length : Nat)
  | rejected (start : Nat)
deriving DecidableEq, Repr

def candidatesFrom (data : Bytes) (position : Nat) : List Candidate :=
  if data.size ≤ position then []
  else if magicAt data position then
    match _h : framedLength? (data.extract position data.size) with
    | some length => .accepted position length :: candidatesFrom data (position + length)
    | none => .rejected position :: candidatesFrom data (position + 1)
  else candidatesFrom data (position + 1)
termination_by data.size - position
decreasing_by
  · have := byteCount_le_of_framedLength? _h
    simp only [Header.byteCount] at this
    omega
  · omega
  · omega

def candidates (data : Bytes) : List Candidate := candidatesFrom data 0

/-- The ranges of the containers of a file, each from its first byte to the byte behind it. -/
def find (data : Bytes) : List (Nat × Nat) :=
  (candidates data).filterMap fun c =>
    match c with
    | .accepted start length => some (start, start + length)
    | .rejected _ => none

/-- The notices of the search: the tags without a container. -/
def findNotices (data : Bytes) : List Notice :=
  (candidates data).filterMap fun c =>
    match c with
    | .accepted _ _ => none
    | .rejected start => some (.rejectedCandidate start)

end Container
end ShaderBytecode
