import ShaderBytecode.Proofs.Bytes.Writing
import ShaderBytecode.Proofs.Container.Search

/-!
# Containers among other bytes

A file may hold containers, its blobs, with other bytes between them. A search gets the blobs back,
and nothing else, as long as the magic tag does not occur in these other bytes:

    candidatesFrom_append_add : behind some bytes a search goes as if these were not there
    framedLength?_append      : bytes behind a container do not change its framing
    magicAt_append_eq_false   : the magic tag does not occur over the boundary in front of a blob
    find_assemble             : the ranges that are found are those of the blobs

The blobs may hold the magic tag again, and even whole containers.

The proof goes from the front of the file to its end. Bytes without a tag are passed over, a blob is
found and left at its end, and the rest of the file is searched as if it stood alone, with all
positions moved. Three things could go wrong, and each has its lemma: the framing of a blob could
depend on what stands behind it, a tag could begin in the bytes in front of a blob and end inside of
it, and the moved search could see something else.
-/

namespace ShaderBytecode
namespace Container

/-! ### Places behind other bytes

A search looks at a file from a position on. With bytes put in front, the same search looks from a
position that many bytes further on, and sees the same. -/

/-- A piece of the bytes behind. -/
theorem extract_append_add (front data : Bytes) (first last : Nat) :
    (front ++ data).extract (front.size + first) (front.size + last)
      = data.extract first last := by
  simp [Array.extract_append]

/-- A tag in the bytes behind. -/
theorem magicAt_append_add (front data : Bytes) (position : Nat) :
    magicAt (front ++ data) (front.size + position) = magicAt data position := by
  unfold magicAt
  rw [Nat.add_assoc, extract_append_add]

/-- The rest of the bytes behind, from a position on. -/
theorem extract_append_size (front data : Bytes) (position : Nat) :
    (front ++ data).extract (front.size + position) (front ++ data).size
      = data.extract position data.size := by
  rw [Array.size_append, extract_append_add]

/-- A candidate that stands `n` bytes further on. -/
def Candidate.shift (n : Nat) : Candidate → Candidate
  | accepted start length => accepted (n + start) length
  | rejected start => rejected (n + start)

/-! How the search goes on, once for each kind of place. The search is a recursion with a decreasing
measure, so these equations are shown once and used from then on. -/

section

variable {data : Bytes} {position : Nat}

/-- At a container the search stops and goes on behind it. -/
theorem candidatesFrom_accepted {length : Nat} (htag : magicAt data position = true)
    (hlength : framedLength? (data.extract position data.size) = some length) :
    candidatesFrom data position
      = .accepted position length :: candidatesFrom data (position + length) := by
  have hsize := add_four_le_size_of_magicAt htag
  rw [candidatesFrom, if_neg (by omega), if_pos htag]
  -- the match keeps its equation for termination, so it cannot be rewritten
  split
  · next n hn =>
    cases hlength.symm.trans hn
    rfl
  · next hn => cases hlength.symm.trans hn

/-- At a tag without a container it goes on with the next byte. -/
theorem candidatesFrom_rejected (htag : magicAt data position = true)
    (hlength : framedLength? (data.extract position data.size) = none) :
    candidatesFrom data position = .rejected position :: candidatesFrom data (position + 1) := by
  have hsize := add_four_le_size_of_magicAt htag
  rw [candidatesFrom, if_neg (by omega), if_pos htag]
  split
  · next n hn => cases hlength.symm.trans hn
  · rfl

/-- At the end there is nothing to find. -/
theorem candidatesFrom_of_size_le (h : data.size ≤ position) :
    candidatesFrom data position = [] := by
  rw [candidatesFrom, if_pos h]

/-- Where no tag stands it goes on with the next byte. -/
theorem candidatesFrom_of_magicAt_eq_false (h : magicAt data position = false) :
    candidatesFrom data position = candidatesFrom data (position + 1) := by
  by_cases hend : data.size ≤ position
  · rw [candidatesFrom_of_size_le hend, candidatesFrom_of_size_le (Nat.le_succ_of_le hend)]
  · rw [candidatesFrom, if_neg hend, h]
    rfl

end

/-- Behind some bytes a search goes on as if these were not there. -/
theorem candidatesFrom_append_add (front data : Bytes) (position : Nat) :
    candidatesFrom (front ++ data) (front.size + position)
      = (candidatesFrom data position).map (Candidate.shift front.size) := by
  have htags := magicAt_append_add front data
  have hrest := extract_append_size front data
  -- every case of the search goes over into the same case further on
  fun_induction candidatesFrom data position with
  | case1 position hend =>
    exact candidatesFrom_of_size_le (by rw [Array.size_append]; omega)
  | case2 position _ htag length hlength ih =>
    rw [candidatesFrom_accepted ((htags position).trans htag)
      ((congrArg framedLength? (hrest position)).trans hlength), Nat.add_assoc, ih]
    rfl
  | case3 position _ htag hnone ih =>
    rw [candidatesFrom_rejected ((htags position).trans htag)
      ((congrArg framedLength? (hrest position)).trans hnone), Nat.add_assoc, ih]
    rfl
  | case4 position _ htag ih =>
    have htag : magicAt data position = false := by simpa using htag
    rw [candidatesFrom_of_magicAt_eq_false ((htags position).trans htag), Nat.add_assoc, ih]

/-- Where no tag stands the search passes. -/
theorem candidatesFrom_eq_of_magicAt_eq_false {data : Bytes} {n : Nat}
    (h : ∀ position, position < n → magicAt data position = false) :
    candidatesFrom data 0 = candidatesFrom data n := by
  induction n with
  | zero => rfl
  | succ n ih =>
    rw [ih fun position hposition => h position (Nat.lt_succ_of_lt hposition)]
    exact candidatesFrom_of_magicAt_eq_false (h n (Nat.lt_succ_self n))

/-! ### Framing in front of other bytes

Framing compares the size that a header gives with the size of the buffer, and a longer buffer has
room for it as well. -/

/-- A framed buffer stays framed when bytes are put behind it. -/
theorem framed_append {data : Bytes} (h : Framed data) (back : Bytes) :
    Framed (data ++ back) ∧ announcedSize (data ++ back) = announcedSize data := by
  -- The buffer is what is left when the bytes behind it are taken away again.
  have hcut : (data ++ back).extract 0 data.size = data := by simp [Array.extract_append]
  have hheader := h.header_le
  have hsize : announcedSize (data ++ back) = announcedSize data := by
    rw [← announcedSize_extract (data ++ back) hheader, hcut]
  have hcount : announcedCount (data ++ back) = announcedCount data := by
    rw [← announcedCount_extract (data ++ back) hheader, hcut]
  have htable : tableEnd (announcedCount (data ++ back)) ≤ data.size := by
    rw [hcount]
    exact Nat.le_trans h.tableEnd_le h.size_le
  have hoffsets : listedOffsets (data ++ back) = listedOffsets data := by
    rw [← listedOffsets_extract (data ++ back) htable, hcut]
  refine ⟨⟨?_, ?_, ?_, ?_, ?_⟩, hsize⟩
  · rw [Array.size_append]
    omega
  · rw [hsize, Array.size_append]
    exact Nat.le_add_right_of_le h.size_le
  · rw [hcount, hsize]
    exact h.tableEnd_le
  · rw [hoffsets, hcount]
    exact h.tableEnd_le_offset
  · intro o ho
    have hend := h.chunkEnd_le o (hoffsets ▸ ho)
    have hhead := headBytes_le_chunkEnd data o.toNat
    have hsize' := h.size_le
    have hwhole : chunkEnd ((data ++ back).extract 0 data.size) o.toNat
        = chunkEnd (data ++ back) o.toNat := chunkEnd_extract (by omega)
    rw [hcut] at hwhole
    rwa [hsize, ← hwhole]

/-- Bytes behind a container do not change its framing. -/
theorem framedLength?_append {data : Bytes} {length : Nat} (h : framedLength? data = some length)
    (back : Bytes) : framedLength? (data ++ back) = some length := by
  obtain ⟨hframed, rfl⟩ := framedLength?_eq_some_iff.1 h
  exact framedLength?_eq_some_iff.2 (framed_append hframed back)

/-! ### The magic tag at a boundary

The tag has four different letters, so it has no proper beginning that is also an end. This is what
keeps a tag from lying over the boundary in front of a blob. -/

/-- The tag is told by its four bytes. -/
theorem magicAt_iff {data : Bytes} {position : Nat} :
    magicAt data position = true ↔
      data[position]? = some 68 ∧ data[position + 1]? = some 88 ∧ data[position + 2]? = some 66 ∧
        data[position + 3]? = some 67 := by
  have htag : Header.magicTag.toArray = #[68, 88, 66, 67] := rfl
  by_cases hsize : position + 4 ≤ data.size
  · simp [magicAt, Bytes.extract_four hsize, htag, show position < data.size by omega,
      show position + 1 < data.size by omega, show position + 2 < data.size by omega,
      show position + 3 < data.size by omega]
  · -- without room for four bytes the last of them is missing
    constructor
    · exact fun h => absurd (add_four_le_size_of_magicAt h) hsize
    · rintro ⟨-, -, -, h⟩
      obtain ⟨hlast, -⟩ := Array.getElem?_eq_some_iff.1 h
      omega

/-- In front of a buffer that begins with the magic tag, the tag only occurs where it did before:
no part of it, except for the whole, is both its beginning and its end. -/
theorem magicAt_append_eq_false {front data : Bytes} (hdata : magicAt data 0 = true)
    (hfront : ∀ position, magicAt front position = false) {position : Nat}
    (hposition : position < front.size) : magicAt (front ++ data) position = false := by
  rw [Bool.eq_false_iff]
  intro htag
  obtain ⟨h0, h1, h2, h3⟩ := magicAt_iff.1 htag
  obtain ⟨hfirst, -⟩ := magicAt_iff.1 hdata
  -- at the boundary stands the first letter of the tag
  have hboundary : (front ++ data)[front.size]? = some 68 := by
    rw [Array.getElem?_append_right (Nat.le_refl _), Nat.sub_self]
    exact hfirst
  by_cases hin : position + 4 ≤ front.size
  · rw [Array.getElem?_append_left (by omega)] at h0 h1 h2 h3
    have hold := magicAt_iff.2 ⟨h0, h1, h2, h3⟩
    rw [hfront position] at hold
    cases hold
  · obtain h | h | h : front.size = position + 1 ∨ front.size = position + 2 ∨
        front.size = position + 3 := by omega
    · rw [h, h1] at hboundary
      cases hboundary
    · rw [h, h2] at hboundary
      cases hboundary
    · rw [h, h3] at hboundary
      cases hboundary

/-! ### Files

A file is written down as its pieces, from front to back, and the ranges of the blobs by adding up
the sizes of the pieces. Both are recursions on the same list. -/

/-- A file of blobs with other bytes in front of the first and behind each of them. -/
def assemble (front : Bytes) : List (Bytes × Bytes) → Bytes
  | [] => front
  | (blob, next) :: pieces => front ++ (blob ++ assemble next pieces)

/-- The ranges of the blobs in a file, of which the bytes in front begin at `first`. -/
def blobRanges (first : Nat) (front : Bytes) : List (Bytes × Bytes) → List (Nat × Nat)
  | [] => []
  | (blob, next) :: pieces =>
    let start := first + front.size
    (start, start + blob.size) :: blobRanges (start + blob.size) next pieces

/-- Ranges that are counted from further on are further on. -/
theorem blobRanges_add (n first : Nat) (front : Bytes) (pieces : List (Bytes × Bytes)) :
    blobRanges (n + first) front pieces
      = (blobRanges first front pieces).map fun r => (n + r.1, n + r.2) := by
  induction pieces generalizing first front with
  | nil => rfl
  | cons piece pieces ih =>
    obtain ⟨blob, next⟩ := piece
    simp only [blobRanges, List.map_cons, Nat.add_assoc]
    rw [ih]

/-- The ranges are where the blobs are. -/
theorem extract_blobRanges (before front : Bytes) (pieces : List (Bytes × Bytes)) :
    (blobRanges before.size front pieces).map
        (fun r => (before ++ assemble front pieces).extract r.1 r.2)
      = pieces.map (·.1) := by
  induction pieces generalizing before front with
  | nil => rfl
  | cons piece pieces ih =>
    obtain ⟨blob, next⟩ := piece
    have hfile : before ++ assemble front ((blob, next) :: pieces)
        = (before ++ front) ++ blob ++ assemble next pieces := by
      simp only [assemble, Array.append_assoc]
    have hsize : before.size + front.size + blob.size = (before ++ front ++ blob).size := by
      simp only [Array.size_append]
    -- what stands in front of the rest grows by the blob
    have hblob : ((before ++ front) ++ blob ++ assemble next pieces).extract
        (before.size + front.size) (before.size + front.size + blob.size) = blob :=
      Bytes.extract_middle Array.size_append rfl
    rw [blobRanges, List.map_cons, List.map_cons, hfile, hblob, hsize, ih]

/-- A blob is a container and takes up all of its own bytes. -/
def IsBlob (blob : Bytes) : Prop :=
  magicAt blob 0 = true ∧ framedLength? blob = some blob.size

/-- The magic tag does not occur in some bytes. -/
def Untagged (bytes : Bytes) : Prop := ∀ position, magicAt bytes position = false

/-- Past the end of the bytes there is no tag anyway. -/
theorem untagged_iff {bytes : Bytes} :
    Untagged bytes ↔ ∀ position < bytes.size, magicAt bytes position = false := by
  refine ⟨fun h position _ => h position, fun h position => ?_⟩
  by_cases hin : position < bytes.size
  · exact h position hin
  · rw [Bool.eq_false_iff]
    intro htag
    have hsize := add_four_le_size_of_magicAt htag
    omega

/-- The ranges of candidates that stand further on are further on. -/
theorem filterMap_range?_shift (n : Nat) (candidates : List Candidate) :
    (candidates.map (Candidate.shift n)).filterMap Candidate.range?
      = (candidates.filterMap Candidate.range?).map fun r => (n + r.1, n + r.2) := by
  rw [List.filterMap_map, List.map_filterMap]
  congr 1
  funext c
  cases c with
  | accepted start length => simp [Candidate.shift, Candidate.range?, Nat.add_assoc]
  | rejected start => rfl

/-- Behind bytes without a tag a blob is found, and then what is found in the rest. -/
theorem find_append_blob {front blob : Bytes} (hfront : Untagged front) (hblob : IsBlob blob)
    (rest : Bytes) :
    find (front ++ (blob ++ rest)) = (front.size, front.size + blob.size)
      :: (find rest).map fun r => (front.size + blob.size + r.1, front.size + blob.size + r.2) := by
  obtain ⟨htag, hlength⟩ := hblob
  -- the tag of the blob lies within the blob, whatever follows it
  have hpart : blob.extract 0 4 = (blob ++ rest).extract 0 4 := by
    have hsize := add_four_le_size_of_magicAt htag
    simp [Array.extract_append, show 4 - blob.size = 0 by omega]
  have htag : magicAt (blob ++ rest) 0 = true := by
    unfold magicAt at htag ⊢
    rwa [Nat.zero_add, ← hpart]
  have hskip : candidatesFrom (front ++ (blob ++ rest)) 0
      = candidatesFrom (front ++ (blob ++ rest)) (front.size + 0) :=
    candidatesFrom_eq_of_magicAt_eq_false fun position h => magicAt_append_eq_false htag hfront h
  have hframed : framedLength? ((blob ++ rest).extract 0 (blob ++ rest).size)
      = some blob.size := by
    rw [Array.extract_size]
    exact framedLength?_append hlength rest
  have hfirst : candidatesFrom (blob ++ rest) 0
      = .accepted 0 blob.size :: candidatesFrom (blob ++ rest) (blob.size + 0) := by
    rw [candidatesFrom_accepted htag hframed, Nat.zero_add, Nat.add_zero]
  have hrange : (Candidate.accepted 0 blob.size).range? = some (0, 0 + blob.size) := rfl
  rw [find_eq, find_eq, candidates, candidates, hskip, candidatesFrom_append_add,
    filterMap_range?_shift, hfirst, List.filterMap_cons_some hrange, candidatesFrom_append_add,
    filterMap_range?_shift]
  simp [Nat.add_assoc]

/-- **Embedded containers are found again.** Where the magic tag does not occur in the bytes between
some blobs, the search finds the ranges of the blobs, each of which holds its blob, and no
others. -/
theorem find_assemble {front : Bytes} {pieces : List (Bytes × Bytes)} (hfront : Untagged front)
    (hpieces : ∀ piece ∈ pieces, IsBlob piece.1 ∧ Untagged piece.2) :
    find (assemble front pieces) = blobRanges 0 front pieces ∧
      (blobRanges 0 front pieces).map
        (fun r => (assemble front pieces).extract r.1 r.2) = pieces.map (·.1) := by
  constructor
  · -- the bytes behind a blob are the bytes in front of the next one
    induction pieces generalizing front with
    | nil =>
      have hnone : candidatesFrom front 0 = [] := by
        rw [candidatesFrom_eq_of_magicAt_eq_false fun position _ => hfront position,
          candidatesFrom_of_size_le (Nat.le_refl front.size)]
      rw [assemble, find_eq, candidates, hnone]
      rfl
    | cons piece pieces ih =>
      obtain ⟨blob, next⟩ := piece
      obtain ⟨⟨hblob, hnext⟩, hrest⟩ := List.forall_mem_cons.1 hpieces
      rw [assemble, find_append_blob hfront hblob, ih hnext hrest, ← blobRanges_add, blobRanges,
        Nat.zero_add, Nat.add_zero]
  · have hranges := extract_blobRanges #[] front pieces
    rwa [Array.empty_append, Array.size_empty] at hranges

/-- A container whose only chunk holds a container again. -/
def outerContainer : Bytes := containerWithin.extract 5 81

/-- A container without chunks. -/
def emptyContainer : Bytes :=
  #[68, 88, 66, 67, 0, 0, 0, 0, 0, 0, 0, 0, 0, 0, 0, 0, 0, 0, 0, 0, 1, 0, 0, 0,
    32, 0, 0, 0, 0, 0, 0, 0]

/-- A container that holds another is found once. Neither the parts of a tag around it nor the
container directly behind it are in the way. -/
theorem find_assemble_outerContainer :
    find (assemble #[68, 88, 66]
        [(outerContainer, #[]), (emptyContainer, #[67, 7, 68, 88, 66])])
      = [(3, 79), (79, 111)] := by
  have hfront : Untagged #[68, 88, 66] := untagged_iff.2 (by decide)
  have houter : IsBlob outerContainer := ⟨by decide, by decide +kernel⟩
  have hempty : IsBlob emptyContainer := ⟨by decide, by decide⟩
  have hnone : Untagged #[] := untagged_iff.2 (by decide)
  have hback : Untagged #[67, 7, 68, 88, 66] := untagged_iff.2 (by decide)
  have hpieces : ∀ piece ∈ [(outerContainer, #[]), (emptyContainer, #[67, 7, 68, 88, 66])],
      IsBlob piece.1 ∧ Untagged piece.2 := by
    rw [List.forall_mem_cons, List.forall_mem_cons]
    dsimp only
    exact ⟨⟨houter, hnone⟩, ⟨hempty, hback⟩, List.forall_mem_nil _⟩
  rw [(find_assemble hfront hpieces).1]
  decide +kernel

end Container
end ShaderBytecode
