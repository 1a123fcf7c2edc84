import ShaderBytecode.Container.RoundTrip
import ShaderBytecode.Proofs.Container.Framing

/-!
# Writing back what was read

A container is written at the places its chunks were read from. Chunks may overlap, repeat or leave
gaps; since every chunk is written as the piece of the buffer it was read from, it does not matter
which of them is written last. What no part of the container covers is zero afterwards:

    encode_of_decode : decode data = .ok c → ∃ out, c.encode = .ok out ∧ …

Writing starts from zeros and overwrites. Since all pieces come from one buffer, a byte that is
written holds what that buffer holds, no matter how often it is written. So the result is told byte
by byte, by whether a position is covered (`Covered`), and no order has to be kept track of.
-/

namespace ShaderBytecode
namespace Container

/-- The header, the chunk table or one of the listed chunks covers a position. -/
def Covered (data : Bytes) (i : Nat) : Prop :=
  i < tableEnd (announcedCount data) ∨
    ∃ o ∈ listedOffsets data, o.toNat ≤ i ∧ i < chunkEnd data o.toNat

instance (data : Bytes) (i : Nat) : Decidable (Covered data i) :=
  inferInstanceAs (Decidable (_ ∨ ∃ o ∈ listedOffsets data, _))

/-! ### The size of what is written

The size of the output is a maximum over the header, the table and all chunks. It is characterised
by what it is at most, which is all that is needed to see that nothing is cut off. -/

/-- A maximum is bounded if all that goes into it is. -/
theorem foldl_max_le_iff {l : List Nat} {a n : Nat} :
    l.foldl max a ≤ n ↔ a ≤ n ∧ ∀ m ∈ l, m ≤ n := by
  induction l generalizing a with
  | nil => simp
  | cons m l ih =>
    rw [List.foldl_cons, ih, Nat.max_le, List.forall_mem_cons, and_assoc]

/-- The bytes that are written are the fewest that hold the table, every chunk, and as many as the
header asks for. -/
theorem encodedSize_le_iff {c : Container} {n : Nat} :
    c.encodedSize ≤ n ↔ tableEnd c.chunks.length ≤ n ∧ (∀ chunk ∈ c.chunks, chunk.endOffset ≤ n) ∧
      c.header.size.toNat ≤ n := by
  rw [encodedSize, Nat.max_le, Nat.max_le, foldl_max_le_iff, and_assoc]
  simp

/-- A container can be written if every chunk begins behind the table. -/
theorem misplaced?_eq_none_iff {c : Container} :
    c.misplaced? = none ↔ ∀ chunk ∈ c.chunks, tableEnd c.chunks.length ≤ chunk.offset.toNat := by
  unfold misplaced?
  rw [Option.map_eq_none_iff, List.find?_eq_none]
  constructor
  · intro h chunk hmem
    -- a chunk of the list has a number
    obtain ⟨k, hk, rfl⟩ := List.getElem_of_mem hmem
    have hpair : (c.chunks[k], k) ∈ c.chunks.zipIdx := by
      rw [List.mk_mem_zipIdx_iff_getElem?]
      exact List.getElem?_eq_getElem hk
    simpa using h _ hpair
  · intro h p hp
    have hmem : p.1 ∈ c.chunks := by
      rw [List.mem_zipIdx_iff_getElem?] at hp
      exact List.mem_of_getElem? hp
    simpa using h _ hmem

/-! ### Chunks as pieces of a buffer

Each chunk knows its offset and its payload, and its size is that of the payload. For a chunk that
was read this gives back the piece of the buffer. -/

/-- A chunk that lies below `n` is the same when the buffer is cut off there. -/
theorem chunkPiece_extract {data : Bytes} {n : Nat} {o : UInt32}
    (h : chunkEnd data o.toNat ≤ n) :
    chunkPiece (data.extract 0 n) o = chunkPiece data o := by
  have hhead := headBytes_le_chunkEnd data o.toNat
  have hend : chunkEnd (data.extract 0 n) o.toNat = chunkEnd data o.toNat :=
    chunkEnd_extract (by omega)
  unfold Chunk.headBytes at hhead
  simp only [chunkPiece, hend, Array.extract_extract, Nat.zero_add]
  rw [Nat.min_eq_left (by omega), Nat.min_eq_left h]

/-- A chunk ends where it gave its end. -/
theorem endOffset_chunkPiece {data : Bytes} {o : UInt32} (h : chunkEnd data o.toNat ≤ data.size) :
    (chunkPiece data o).endOffset = chunkEnd data o.toNat := by
  have hhead := headBytes_le_chunkEnd data o.toNat
  simp only [Chunk.endOffset, chunkPiece, Array.size_extract]
  omega

/-- A chunk is written as the piece of the buffer it was read from. -/
theorem toBytes_chunkPiece {data : Bytes} {o : UInt32} (h : chunkEnd data o.toNat ≤ data.size) :
    (chunkPiece data o).toBytes = data.extract o.toNat (chunkEnd data o.toNat) := by
  have hhead : o.toNat + 8 ≤ chunkEnd data o.toNat := headBytes_le_chunkEnd data o.toNat
  have hsize : (chunkPiece data o).data.size = (data.wordAt (o.toNat + 4)).toNat := by
    simp only [chunkPiece, Array.size_extract, Nat.min_eq_left h]
    exact Nat.add_sub_cancel_left _ _
  have htag : (chunkPiece data o).tag.toArray = data.extract o.toNat (o.toNat + 4) :=
    Bytes.toArray_tag (by omega)
  have hword : Bytes.ofWord (data.wordAt (o.toNat + 4))
      = data.extract (o.toNat + 4) (o.toNat + 8) := Bytes.ofWord_wordAt (by omega)
  rw [Chunk.toBytes, hsize, UInt32.ofNat_toNat, htag, hword]
  simp only [chunkPiece, Chunk.headBytes]
  rw [Bytes.extract_append_extract data (by omega) (by omega),
    Bytes.extract_append_extract data (by omega) hhead]

/-- The chunks of a framed buffer are pieces of it. -/
theorem listedChunks_eq {data : Bytes} (h : Framed data) :
    listedChunks data = (listedOffsets data).map (chunkPiece data) :=
  List.map_congr_left fun o ho => chunkPiece_extract (h.chunkEnd_le o ho)

/-! ### Writing pieces of one buffer over each other -/

/-- What is written from on `out` when pieces of `data`, given by where they begin and end, are
written where they were taken from. -/
def writePieces (data out : Bytes) (pieces : List (Nat × Nat)) : Bytes :=
  pieces.foldl (fun out p => Bytes.overwrite out p.1 (data.extract p.1 p.2)) out

@[simp] theorem size_writePieces (data out : Bytes) (pieces : List (Nat × Nat)) :
    (writePieces data out pieces).size = out.size := by
  induction pieces generalizing out with
  | nil => rfl
  | cons p pieces ih => rw [writePieces, List.foldl_cons, ← writePieces, ih, Bytes.size_overwrite]

/-- In whatever order pieces of a buffer are written, a position that one of them covers holds what
the buffer holds there, and any other is untouched. -/
theorem getElem?_writePieces {data out : Bytes} {pieces : List (Nat × Nat)} {i : Nat}
    (h : ∀ p ∈ pieces, p.2 ≤ data.size) (hi : i < out.size) :
    (writePieces data out pieces)[i]?
      = if ∃ p ∈ pieces, p.1 ≤ i ∧ i < p.2 then data[i]? else out[i]? := by
  induction pieces generalizing out with
  | nil => simp [writePieces]
  | cons p pieces ih =>
    have hout : i < (Bytes.overwrite out p.1 (data.extract p.1 p.2)).size := by
      rwa [Bytes.size_overwrite]
    rw [writePieces, List.foldl_cons, ← writePieces,
      ih (fun q hq => h q (List.mem_cons_of_mem p hq)) hout,
      Bytes.getElem?_overwrite_extract (h p List.mem_cons_self) hi]
    simp only [List.mem_cons, or_and_right, exists_or, exists_eq_left]
    -- the pieces behind this one leave its bytes, unless they write them again
    by_cases hp : p.1 ≤ i ∧ i < p.2
    · simp [hp]
    · simp only [hp, if_false, false_or]

/-! ### Writing what was read -/

/-- The pieces that a container is written in: the header with the table, and each chunk. -/
def listedPieces (data : Bytes) : List (Nat × Nat) :=
  (0, tableEnd (announcedCount data)) ::
    (listedOffsets data).map fun o => (o.toNat, chunkEnd data o.toNat)

/-- Writing chunks of a buffer is writing pieces of it. -/
theorem foldl_chunkPiece {data out : Bytes} {offsets : List UInt32}
    (h : ∀ o ∈ offsets, chunkEnd data o.toNat ≤ data.size) :
    (offsets.map (chunkPiece data)).foldl
        (fun out c => Bytes.overwrite out c.offset.toNat c.toBytes) out
      = writePieces data out (offsets.map fun o => (o.toNat, chunkEnd data o.toNat)) := by
  induction offsets generalizing out with
  | nil => rfl
  | cons o offsets ih =>
    rw [List.map_cons, List.foldl_cons, toBytes_chunkPiece (h o List.mem_cons_self),
      ih fun o' ho' => h o' (List.mem_cons_of_mem o ho')]
    rfl

/-- Being covered is lying within one of the pieces. -/
theorem exists_mem_listedPieces_iff {data : Bytes} {i : Nat} :
    (∃ p ∈ listedPieces data, p.1 ≤ i ∧ i < p.2) ↔ Covered data i := by
  simp only [listedPieces, Covered, List.mem_cons, List.mem_map, or_and_right, exists_or,
    exists_eq_left, Nat.zero_le, true_and]
  constructor
  · rintro (htable | ⟨p, ⟨o, ho, rfl⟩, hp⟩)
    · exact .inl htable
    · exact .inr ⟨o, ho, hp⟩
  · rintro (htable | ⟨o, ho, hp⟩)
    · exact .inl htable
    · exact .inr ⟨_, ⟨o, ho, rfl⟩, hp⟩

/-- No piece reaches beyond the announced size. -/
theorem le_size_of_mem_listedPieces {data : Bytes} (h : Framed data) {p : Nat × Nat}
    (hp : p ∈ listedPieces data) : p.2 ≤ announcedSize data := by
  rcases List.mem_cons.1 hp with rfl | hp
  · exact h.tableEnd_le
  · obtain ⟨o, ho, rfl⟩ := List.mem_map.1 hp
    exact h.chunkEnd_le o ho

/-- A container has the header and the chunks that stand in a framed buffer. -/
structure ReadFrom (c : Container) (data : Bytes) : Prop where
  framed : Framed data
  header_eq : c.header = Header.ofBytes data
  chunks_eq : c.chunks = listedChunks data

/-- What was decoded has the header and the chunks of its buffer. -/
theorem readFrom_of_decode {c : Container} {data : Bytes} (h : decode data = .ok c) :
    ReadFrom c data := by
  obtain ⟨-, hframed, payloads, -, rfl⟩ := decode_eq_ok_iff.1 h
  exact ⟨hframed, rfl, rfl⟩

section

variable {c : Container} {data : Bytes}

/-- There are as many chunks as were announced. -/
theorem ReadFrom.length_chunks (h : ReadFrom c data) : c.chunks.length = announcedCount data := by
  rw [h.chunks_eq, length_listedChunks]

/-- What was read takes as many bytes as it announced. -/
theorem ReadFrom.encodedSize_eq (h : ReadFrom c data) : c.encodedSize = announcedSize data := by
  have hheader : c.header.size.toNat = announcedSize data := by rw [h.header_eq]; rfl
  apply Nat.le_antisymm
  · refine encodedSize_le_iff.2 ⟨?_, fun chunk hchunk => ?_, Nat.le_of_eq hheader⟩
    · rw [h.length_chunks]
      exact h.framed.tableEnd_le
    · rw [h.chunks_eq, listedChunks_eq h.framed] at hchunk
      obtain ⟨o, ho, rfl⟩ := List.mem_map.1 hchunk
      have hend := h.framed.chunkEnd_le o ho
      rwa [endOffset_chunkPiece (Nat.le_trans hend h.framed.size_le)]
  · rw [← hheader]
    exact (encodedSize_le_iff.1 (Nat.le_refl _)).2.2

/-- No chunk that was read is misplaced. -/
theorem ReadFrom.misplaced?_eq (h : ReadFrom c data) : c.misplaced? = none := by
  refine misplaced?_eq_none_iff.2 fun chunk hchunk => ?_
  rw [h.chunks_eq] at hchunk
  obtain ⟨o, ho, rfl⟩ := List.mem_map.1 hchunk
  rw [h.length_chunks]
  exact h.framed.tableEnd_le_offset o ho

/-- The header is written as it was read. -/
theorem ReadFrom.encodedHeader_eq (h : ReadFrom c data) :
    c.encodedHeader = Header.ofBytes data := by
  rw [encodedHeader, h.encodedSize_eq, h.length_chunks, h.header_eq]
  simp [announcedSize, announcedCount]

/-- The table is written as it was read. -/
theorem ReadFrom.tableBytes_eq (h : ReadFrom c data) :
    c.tableBytes = data.extract Header.byteCount (tableEnd (announcedCount data)) := by
  have hwords : c.chunks.map (fun chunk => Bytes.ofWord chunk.offset)
      = (List.range (announcedCount data)).map fun k =>
          Bytes.ofWord (data.wordAt (Header.byteCount + 4 * k)) := by
    rw [h.chunks_eq]
    simp [listedChunks, listedOffsets, chunkPiece]
  rw [tableBytes, hwords]
  exact Bytes.foldl_ofWord _ (Nat.le_trans h.framed.tableEnd_le h.framed.size_le)

/-- What is written of a container that was read: zeros, with the pieces it was read from. -/
theorem ReadFrom.encode_eq (h : ReadFrom c data) :
    c.encode
      = .ok (writePieces data (Array.replicate (announcedSize data) 0) (listedPieces data)) := by
  have hfront : c.encodedHeader.toBytes ++ c.tableBytes
      = data.extract 0 (tableEnd (announcedCount data)) := by
    rw [h.encodedHeader_eq, h.tableBytes_eq, Header.toBytes_ofBytes h.framed.header_le]
    exact Bytes.extract_append_extract data (Nat.zero_le _) (Nat.le_add_right _ _)
  unfold encode
  rw [h.misplaced?_eq]
  dsimp only
  rw [hfront, h.encodedSize_eq, h.chunks_eq, listedChunks_eq h.framed, foldl_chunkPiece
    fun o ho => Nat.le_trans (h.framed.chunkEnd_le o ho) h.framed.size_le]
  rfl

end

/-- **Reading and writing back.** What was decoded can be encoded. The bytes are as many as the
header announced; what the header, the table or a listed chunk covers is as it was, and all else is
zero. So the container comes back as it was exactly if nothing else stood in it. -/
theorem encode_of_decode {data : Bytes} {c : Container} (h : decode data = .ok c) :
    ∃ out, c.encode = .ok out ∧ out.size = c.header.size.toNat ∧
      (∀ i, Covered data i → i < out.size ∧ out[i]? = data[i]?) ∧
      (∀ i, i < out.size → ¬ Covered data i → out[i]? = some 0) ∧
      (out = data.extract 0 c.header.size.toNat ↔
        ∀ i, i < c.header.size.toNat → ¬ Covered data i → data[i]? = some 0) := by
  have hread := readFrom_of_decode h
  have hheader : c.header.size.toNat = announcedSize data := by rw [hread.header_eq]; rfl
  have hsize : announcedSize data ≤ data.size := hread.framed.size_le
  -- the pieces are laid over zeros, of as many bytes as are announced
  generalize hout : writePieces data (Array.replicate (announcedSize data) 0) (listedPieces data)
    = out
  have hlength : out.size = announcedSize data := by
    rw [← hout, size_writePieces, Array.size_replicate]
  -- so a byte is that of the data if a piece covers it, and zero otherwise
  have hbyte : ∀ i, i < announcedSize data →
      out[i]? = if Covered data i then data[i]? else some 0 := by
    intro i hi
    rw [← hout, getElem?_writePieces (fun p hp => Nat.le_trans
      (le_size_of_mem_listedPieces hread.framed hp) hsize) (by rwa [Array.size_replicate]),
      Array.getElem?_replicate, if_pos hi]
    simp only [exists_mem_listedPieces_iff]
  have hcovered : ∀ i, Covered data i → i < announcedSize data := by
    intro i hi
    obtain ⟨p, hp, -, hlt⟩ := exists_mem_listedPieces_iff.2 hi
    exact Nat.lt_of_lt_of_le hlt (le_size_of_mem_listedPieces hread.framed hp)
  rw [hheader]
  refine ⟨out, hout ▸ hread.encode_eq, hlength, ?_, ?_, ?_⟩
  · intro i hi
    rw [hlength, hbyte i (hcovered i hi), if_pos hi]
    exact ⟨hcovered i hi, rfl⟩
  · intro i hi hnot
    rw [hbyte i (hlength ▸ hi), if_neg hnot]
  · have hpiece : ∀ i, i < announcedSize data →
        (data.extract 0 (announcedSize data))[i]? = data[i]? := by
      intro i hi
      rw [Array.getElem?_extract, if_pos (by omega), Nat.zero_add]
    -- the bytes come back as they were exactly if those that are not covered are zero
    constructor
    · intro heq i hi hnot
      rw [← hpiece i hi, ← heq, hbyte i hi, if_neg hnot]
    · intro hzero
      apply Array.ext_getElem?
      intro i
      by_cases hi : i < announcedSize data
      · rw [hbyte i hi, hpiece i hi]
        split
        · rfl
        · next hnot => exact (hzero i hi hnot).symm
      · rw [Array.getElem?_eq_none (by omega), Array.getElem?_eq_none (by
          rw [Array.size_extract]; omega)]

/-- A container of 64 bytes, with a byte behind it. Its second chunk begins inside the first one,
and there are gaps in front of the first and behind the last. -/
def overlapping : Bytes :=
  #[68, 88, 66, 67, 1, 2, 3, 4, 5, 6, 7, 8, 9, 10, 11, 12, 13, 14, 15, 16, 1, 0, 2, 0,
    64, 0, 0, 0, 2, 0, 0, 0, 44, 0, 0, 0, 48, 0, 0, 0, 0, 0, 0, 0, 83, 84, 65, 84, 6, 0, 0, 0,
    2, 0, 0, 0, 7, 8, 0, 0, 0, 0, 0, 0, 255]

/-- The container comes back although its chunks overlap, and without the byte behind it. -/
theorem encode_of_decode_overlapping :
    ∃ c, decode overlapping = .ok c ∧ c.encode = .ok (overlapping.extract 0 64) := by
  have haccepted : (decode overlapping).toOption.isSome = true := by decide +kernel
  cases hdecode : decode overlapping with
  | error e =>
    rw [hdecode] at haccepted
    cases haccepted
  | ok c =>
    have hsize : c.header.size.toNat = 64 := by
      obtain ⟨-, -, payloads, -, rfl⟩ := decode_eq_ok_iff.1 hdecode
      rfl
    obtain ⟨out, hout, -, -, -, hiff⟩ := encode_of_decode hdecode
    rw [hsize] at hiff
    have hsame := hiff.2 (by decide +kernel)
    exact ⟨c, rfl, hout.trans (congrArg Except.ok hsame)⟩

end Container
end ShaderBytecode
