import ShaderBytecode.Proofs.Bytes.Writing
import ShaderBytecode.Proofs.Container.RoundTrip

/-!
# Reading what was written

A container need not come from a buffer: its chunks may have been moved, added or replaced, and the
size and the count in its header may be stale. It can be written as soon as no chunk reaches into
the header or the table. What was written reads back as it was if no two chunks share a position:
every byte then has one writer, so each chunk finds its own bytes where it was written.

    encode_eq_error_iff : what is reported is the first chunk that is misplaced
    decode_of_encode    : c.encode = .ok out → … → decode out = .ok …, with the chunks of c

Behind the last chunk to be written over a place, nothing changes there (`extract_writeChunks`); the
header and the table stand in front of all chunks, so none of them changes there either
(`extract_written`).

The difference to a container that was read is that nothing says where its chunks are. A chunk may
begin within another one, and then one of the two is lost in writing. So the result is about chunks
that are apart, and about nothing else: they may stand in any order, with any gaps, and their tags
may be any four bytes.
-/

namespace ShaderBytecode

/-! ### Chunks that share no position

Being apart is what is said of two chunks, and sharing no position is what is used of them. For
intervals that are not empty the two are the same, and a chunk is never empty: it has its tag and
its size in front. -/

namespace Chunk

/-- A chunk lies at a position of the container. -/
def Covers (c : Chunk) (i : Nat) : Prop := c.offset.toNat ≤ i ∧ i < c.endOffset

/-- One of two chunks ends before the other begins. -/
def Apart (a b : Chunk) : Prop := a.endOffset ≤ b.offset.toNat ∨ b.endOffset ≤ a.offset.toNat

instance (a b : Chunk) : Decidable (Apart a b) := inferInstanceAs (Decidable (_ ∨ _))

/-- Chunks are apart exactly if no position belongs to both. -/
theorem apart_iff {a b : Chunk} : a.Apart b ↔ ∀ i, ¬ (a.Covers i ∧ b.Covers i) := by
  unfold Apart Covers endOffset headBytes
  constructor
  · omega
  · intro h
    have := h (max a.offset.toNat b.offset.toNat)
    omega

@[simp] theorem size_toBytes (c : Chunk) : c.toBytes.size = headBytes + c.data.size := by
  simp only [toBytes, Tag.toArray, headBytes, Array.size_append, List.size_toArray,
    List.length_cons, List.length_nil, Bytes.size_ofWord]

/-- A chunk that is written changes only what it covers. -/
theorem getElem?_overwrite_of_not_covers {c : Chunk} {out : Bytes} {i : Nat} (h : ¬ c.Covers i) :
    (Bytes.overwrite out c.offset.toNat c.toBytes)[i]? = out[i]? := by
  rw [Bytes.getElem?_overwrite]
  by_cases hi : c.offset.toNat ≤ i
  · -- the position is behind the last byte that is written
    have hbehind : c.toBytes.size ≤ i - c.offset.toNat := by
      rw [size_toBytes]
      unfold Covers endOffset at h
      omega
    simp [Array.getElem?_eq_none hbehind]
  · simp [hi]

/-- A chunk that is written stands where it was written. -/
theorem getElem?_overwrite_add {c : Chunk} {out : Bytes} {k : Nat} (hk : k < c.toBytes.size)
    (hend : c.endOffset ≤ out.size) :
    (Bytes.overwrite out c.offset.toNat c.toBytes)[c.offset.toNat + k]? = c.toBytes[k]? := by
  have hi : c.offset.toNat + k < out.size := by
    rw [size_toBytes] at hk
    unfold endOffset at hend
    omega
  rw [Bytes.getElem?_overwrite, Array.getElem?_eq_getElem hi, Array.getElem?_eq_getElem hk]
  simp [Array.getElem?_eq_getElem hk]

end Chunk

namespace Container

/-! ### Writing chunks

The chunks are written in the order of the table. What a chunk finds at its place in the end was
written there by itself, since the chunks in front of it were there too early and those behind it
stay away. -/

/-- A buffer after chunks have been written over it, one after the other. -/
def writeChunks (out : Bytes) (chunks : List Chunk) : Bytes :=
  chunks.foldl (fun out c => Bytes.overwrite out c.offset.toNat c.toBytes) out

/-- Writing chunks is writing the first and then the others. -/
theorem writeChunks_cons (out : Bytes) (c : Chunk) (chunks : List Chunk) :
    writeChunks out (c :: chunks)
      = writeChunks (Bytes.overwrite out c.offset.toNat c.toBytes) chunks :=
  rfl

/-- Writing a chunk over a buffer leaves its size. -/
@[simp] theorem size_writeChunks (out : Bytes) (chunks : List Chunk) :
    (writeChunks out chunks).size = out.size := by
  induction chunks generalizing out with
  | nil => rfl
  | cons c chunks ih => rw [writeChunks_cons, ih, Bytes.size_overwrite]

/-- A position that no chunk covers is as it was. -/
theorem getElem?_writeChunks {out : Bytes} {chunks : List Chunk} {i : Nat}
    (h : ∀ c ∈ chunks, ¬ c.Covers i) : (writeChunks out chunks)[i]? = out[i]? := by
  induction chunks generalizing out with
  | nil => rfl
  | cons c chunks ih =>
    rw [writeChunks_cons, ih fun d hd => h d (List.mem_cons_of_mem c hd),
      Chunk.getElem?_overwrite_of_not_covers (h c List.mem_cons_self)]

/-- Chunks that share no position are all found where they were written. -/
theorem extract_writeChunks {out : Bytes} {chunks : List Chunk} {c : Chunk}
    (hapart : chunks.Pairwise Chunk.Apart) (hc : c ∈ chunks) (hend : c.endOffset ≤ out.size) :
    (writeChunks out chunks).extract c.offset.toNat c.endOffset = c.toBytes := by
  induction chunks generalizing out with
  | nil => cases hc
  | cons d chunks ih =>
    obtain ⟨hd, hapart⟩ := List.pairwise_cons.1 hapart
    rw [writeChunks_cons]
    rcases List.mem_cons.1 hc with rfl | hc
    · have hlast : c.endOffset = c.offset.toNat + c.toBytes.size := by
        rw [Chunk.size_toBytes, Chunk.endOffset, Nat.add_assoc]
      rw [hlast]
      apply Bytes.extract_eq_of_getElem?
      · intro k hk
        -- the chunks behind it are apart from it, so they leave its bytes alone
        rw [getElem?_writeChunks fun e he hcovers => Chunk.apart_iff.1 (hd e he) _
          ⟨⟨Nat.le_add_right _ k, by omega⟩, hcovers⟩]
        exact Chunk.getElem?_overwrite_add hk hend
      · rwa [size_writeChunks, Bytes.size_overwrite, ← hlast]
    · exact ih hapart hc (by rwa [Bytes.size_overwrite])

/-! ### What is written of a container

The size in the header is the one that was computed for writing, not the one that the header had.
The same holds of the number of chunks. -/

variable {c : Container}

/-- The bytes in front of all chunks: the header and the table. -/
def front (c : Container) : Bytes := c.encodedHeader.toBytes ++ c.tableBytes

/-- What a container is written to, if none of its chunks is misplaced. -/
def written (c : Container) : Bytes :=
  writeChunks (Bytes.overwrite (Array.replicate c.encodedSize 0) 0 c.front) c.chunks

/-- Writing fails for a misplaced chunk and for nothing else. -/
theorem encode_eq (c : Container) : c.encode =
    match c.misplaced? with
    | some (index, chunk) => .error (.chunkBounds index chunk.offset.toNat c.encodedSize)
    | none => .ok c.written :=
  rfl

/-- What is written has the size that was computed. -/
@[simp] theorem size_written (c : Container) : c.written.size = c.encodedSize := by
  rw [written, size_writeChunks, Bytes.size_overwrite, Array.size_replicate]

/-- The header and the table, as words that follow the header. -/
theorem front_eq (c : Container) : c.front
    = ((c.chunks.map Chunk.offset).map Bytes.ofWord).foldl (· ++ ·) c.encodedHeader.toBytes := by
  rw [front, tableBytes, Bytes.foldl_append_eq c.encodedHeader.toBytes, List.map_map]
  rfl

/-- The header and the table end where the first chunk may begin. -/
theorem size_front (c : Container) : c.front.size = tableEnd c.chunks.length := by
  rw [front_eq, Bytes.size_foldl_ofWord, Header.size_toBytes, List.length_map]
  rfl

/-- Where no chunk is misplaced, the header and the table are found in front of the chunks. -/
theorem extract_written (h : ∀ chunk ∈ c.chunks, tableEnd c.chunks.length ≤ chunk.offset.toNat) :
    c.written.extract 0 (tableEnd c.chunks.length) = c.front := by
  have hend : tableEnd c.chunks.length ≤ c.encodedSize := (encodedSize_le_iff.1 (Nat.le_refl _)).1
  rw [← size_front, ← Nat.zero_add c.front.size]
  apply Bytes.extract_eq_of_getElem?
  · intro k hk
    -- a chunk begins behind the table, so it covers nothing of it
    have hk' : k < tableEnd c.chunks.length := by rwa [← size_front]
    rw [Nat.zero_add, written, getElem?_writeChunks fun chunk hchunk hcovers =>
      absurd (h chunk hchunk) (by have := hcovers.1; omega), Bytes.getElem?_overwrite,
      Array.getElem?_replicate, if_pos (by omega)]
    simp [Array.getElem?_eq_getElem hk]
  · rwa [Nat.zero_add, size_written, size_front]

/-- The header that is read is the one that was written. -/
theorem ofBytes_written (h : ∀ chunk ∈ c.chunks, tableEnd c.chunks.length ≤ chunk.offset.toNat) :
    Header.ofBytes c.written = c.encodedHeader := by
  have hheader : c.front.extract 0 Header.byteCount = c.encodedHeader.toBytes := by
    rw [front, ← Header.size_toBytes c.encodedHeader, Array.extract_append_left,
      Array.extract_size]
  rw [← Header.ofBytes_extract c.written (Nat.le_add_right Header.byteCount (4 * c.chunks.length)),
    ← tableEnd, extract_written h, ← Header.ofBytes_extract c.front (Nat.le_refl _), hheader,
    Header.ofBytes_toBytes]

/-- What is read where a chunk was written: its end and the chunk itself. -/
theorem chunkPiece_written (hsize : c.encodedSize < wordLimit)
    (hapart : c.chunks.Pairwise Chunk.Apart) {chunk : Chunk} (hchunk : chunk ∈ c.chunks) :
    chunkEnd c.written chunk.offset.toNat = chunk.endOffset ∧
      chunkPiece c.written chunk.offset = chunk := by
  have hend : chunk.endOffset ≤ c.encodedSize :=
    (encodedSize_le_iff.1 (Nat.le_refl _)).2.1 chunk hchunk
  have hbytes : c.written.extract chunk.offset.toNat chunk.endOffset = chunk.toBytes :=
    extract_writeChunks hapart hchunk (by
      rwa [Bytes.size_overwrite, Array.size_replicate])
  have hlast : chunk.endOffset = chunk.offset.toNat + 8 + chunk.data.size := rfl
  -- a part of what was written for the chunk is a part of its bytes
  have hpart : ∀ i j, i ≤ j → chunk.offset.toNat + j ≤ chunk.endOffset →
      c.written.extract (chunk.offset.toNat + i) (chunk.offset.toNat + j)
        = chunk.toBytes.extract i j := by
    intro i j hij hj
    rw [← hbytes, Array.extract_extract, Nat.min_eq_left hj]
  have htag : c.written.extract chunk.offset.toNat (chunk.offset.toNat + 4)
      = chunk.tag.toArray := by
    have h := hpart 0 4 (by omega) (by omega)
    rw [Nat.add_zero] at h
    rw [h, Chunk.toBytes, Array.append_assoc]
    exact Array.extract_append_left
  have hword : c.written.wordAt (chunk.offset.toNat + 4) = UInt32.ofNat chunk.data.size := by
    apply Bytes.wordAt_eq
    rw [Nat.add_assoc, hpart 4 8 (by omega) (by omega)]
    exact Bytes.extract_middle rfl rfl
  have hchunkEnd : chunkEnd c.written chunk.offset.toNat = chunk.endOffset := by
    have hdata : chunk.data.size < wordLimit := by omega
    rw [chunkEnd, hword, UInt32.toNat_ofNat_of_lt' hdata]
    rfl
  have hdata : c.written.extract (chunk.offset.toNat + 8) chunk.endOffset = chunk.data := by
    have h := hpart 8 (8 + chunk.data.size) (by omega) (by omega)
    rw [← Nat.add_assoc] at h
    rw [hlast, h]
    exact Bytes.extract_last rfl rfl
  refine ⟨hchunkEnd, ?_⟩
  rw [chunkPiece, hchunkEnd, htag]
  simp only [Chunk.headBytes, hdata]
  rfl

section

variable (hplaced : ∀ chunk ∈ c.chunks, tableEnd c.chunks.length ≤ chunk.offset.toNat)
  (hsize : c.encodedSize < wordLimit)

include hplaced hsize

/-- The size that is read is the size that was written. -/
theorem announcedSize_written : announcedSize c.written = c.encodedSize := by
  rw [announcedSize, ofBytes_written hplaced, encodedHeader, UInt32.toNat_ofNat_of_lt' hsize]

/-- The number of chunks that is read is the number that were written. -/
theorem announcedCount_written : announcedCount c.written = c.chunks.length := by
  have hend : tableEnd c.chunks.length ≤ c.encodedSize := (encodedSize_le_iff.1 (Nat.le_refl _)).1
  unfold tableEnd at hend
  have hcount : c.chunks.length < wordLimit := by omega
  rw [announcedCount, ofBytes_written hplaced, encodedHeader, UInt32.toNat_ofNat_of_lt' hcount]

/-- The table that is read lists the places of the chunks. -/
theorem listedOffsets_written : listedOffsets c.written = c.chunks.map Chunk.offset := by
  apply List.ext_getElem
  · rw [length_listedOffsets, announcedCount_written hplaced hsize, List.length_map]
  · intro k hk hk'
    have hk : k < c.chunks.length := by rwa [List.length_map] at hk'
    have hend : Header.byteCount + 4 * k + 4 ≤ tableEnd c.chunks.length := by
      unfold tableEnd
      omega
    have hword := @Bytes.wordAt_foldl_ofWord c.encodedHeader.toBytes _ k hk'
    rw [Header.size_toBytes, ← front_eq, ← extract_written hplaced, Bytes.wordAt_extract _ hend]
      at hword
    simpa [listedOffsets] using hword

variable (hapart : c.chunks.Pairwise Chunk.Apart)

include hapart

/-- What was written is framed: the table is there, and each chunk has room for its tag and its
data. -/
theorem framed_written : Framed c.written := by
  -- what was written ends where the last chunk does
  have hend := encodedSize_le_iff.1 (Nat.le_refl c.encodedSize)
  constructor
  · rw [size_written]
    exact Nat.le_trans (Nat.le_add_right _ _) hend.1
  · exact Nat.le_of_eq (by rw [announcedSize_written hplaced hsize, size_written])
  · rw [announcedCount_written hplaced hsize, announcedSize_written hplaced hsize]
    exact hend.1
  · rw [listedOffsets_written hplaced hsize, announcedCount_written hplaced hsize,
      List.forall_mem_map]
    exact hplaced
  · rw [listedOffsets_written hplaced hsize, announcedSize_written hplaced hsize,
      List.forall_mem_map]
    intro chunk hchunk
    rw [(chunkPiece_written hsize hapart hchunk).1]
    exact hend.2.1 chunk hchunk

/-- The chunks that are read are those that were written. -/
theorem listedChunks_written : listedChunks c.written = c.chunks := by
  rw [listedChunks_eq (framed_written hplaced hsize hapart), listedOffsets_written hplaced hsize,
    List.map_map]
  exact (List.map_congr_left fun chunk hchunk =>
    (chunkPiece_written hsize hapart hchunk).2).trans (List.map_id _)

end

/-! ### Containers that cannot be written

The search for a misplaced chunk goes along the table, so that the one it reports is the first. -/

/-- A chunk is found misplaced if it is, and no chunk before it is. -/
theorem misplaced?_eq_some_iff {i : Nat} {chunk : Chunk} :
    c.misplaced? = some (i, chunk) ↔
      ∃ hi : i < c.chunks.length, c.chunks[i] = chunk ∧
        chunk.offset.toNat < tableEnd c.chunks.length ∧
        ∀ j (hj : j < i), tableEnd c.chunks.length ≤ c.chunks[j].offset.toNat := by
  simp only [misplaced?, Option.map_eq_some_iff, List.find?_eq_some_iff_getElem, List.length_zipIdx,
    List.getElem_zipIdx, Nat.zero_add, decide_eq_true_eq, Bool.not_eq_true',
    decide_eq_false_iff_not, Nat.not_lt, Prod.mk.injEq]
  constructor
  · rintro ⟨p, ⟨hlt, k, hk, hkp, hbefore⟩, rfl, rfl⟩
    subst hkp
    exact ⟨hk, rfl, hlt, hbefore⟩
  · rintro ⟨hi, rfl, hlt, hbefore⟩
    exact ⟨(c.chunks[i], i), ⟨hlt, i, hi, rfl, hbefore⟩, rfl, rfl⟩

/-- A container is written unless a chunk is misplaced. -/
theorem encode_eq_ok_iff {out : Bytes} :
    c.encode = .ok out ↔
      (∀ chunk ∈ c.chunks, tableEnd c.chunks.length ≤ chunk.offset.toNat) ∧ out = c.written := by
  rw [encode_eq, ← misplaced?_eq_none_iff]
  cases c.misplaced? with
  | none => simp [eq_comm]
  | some p => simp

/-- What is reported when a container cannot be written: the first chunk that is misplaced. -/
theorem encode_eq_error_iff {e : ContainerError} :
    c.encode = .error e ↔
      ∃ (i : Nat) (hi : i < c.chunks.length),
        e = .chunkBounds i c.chunks[i].offset.toNat c.encodedSize ∧
        c.chunks[i].offset.toNat < tableEnd c.chunks.length ∧
        ∀ j (hj : j < i), tableEnd c.chunks.length ≤ c.chunks[j].offset.toNat := by
  constructor
  · intro h
    rw [encode_eq] at h
    cases hm : c.misplaced? with
    | none => rw [hm] at h; cases h
    | some p =>
      rw [hm] at h
      -- what was reported is what the search found
      cases h
      obtain ⟨hi, heq, hlt, hbefore⟩ := misplaced?_eq_some_iff.1 hm
      exact ⟨p.1, hi, by rw [heq], heq ▸ hlt, hbefore⟩
  · rintro ⟨i, hi, rfl, hlt, hbefore⟩
    rw [encode_eq, misplaced?_eq_some_iff.2 ⟨hi, rfl, hlt, hbefore⟩]

/-! ### Reading a container that was written

The parts of a container are decoded anew from the chunks that were read back. They are the same
chunks, so that a payload that could be decoded before can be decoded again. -/

/-- Where every payload can be decoded, all can. -/
theorem mapM_payload_eq_ok {chunks : List Chunk} (h : ∀ c ∈ chunks, ∃ p, c.payload = .ok p) :
    ∃ payloads, chunks.mapM payload = .ok payloads := by
  induction chunks with
  | nil => exact ⟨[], rfl⟩
  | cons c chunks ih =>
    obtain ⟨p, hp⟩ := h c List.mem_cons_self
    obtain ⟨ps, hps⟩ := ih fun d hd => h d (List.mem_cons_of_mem c hd)
    have hc : payload c = .ok p := by rw [payload, hp]; rfl
    exact ⟨p :: ps, by rw [List.mapM_cons, hc, hps]; rfl⟩

/-- **Writing and reading back.** A container can be written exactly if no chunk reaches into the
header or the table, and otherwise the first that does is reported. What was written reads back with
the same chunks and the same header, but for the size and the count that are now right, if it has
the magic tag, its chunks share no position and their payloads can be decoded. -/
theorem decode_of_encode (c : Container) (hsize : c.encodedSize < wordLimit) :
    ((∃ out, c.encode = .ok out) ↔
      ∀ chunk ∈ c.chunks, tableEnd c.chunks.length ≤ chunk.offset.toNat) ∧
    (∀ e, c.encode = .error e ↔
      ∃ (i : Nat) (hi : i < c.chunks.length),
        e = .chunkBounds i c.chunks[i].offset.toNat c.encodedSize ∧
        c.chunks[i].offset.toNat < tableEnd c.chunks.length ∧
        ∀ j (hj : j < i), tableEnd c.chunks.length ≤ c.chunks[j].offset.toNat) ∧
    ∀ out, c.encode = .ok out →
      out.size = c.encodedSize ∧
      (c.header.magic = Header.magicTag → c.chunks.Pairwise Chunk.Apart →
        (∀ chunk ∈ c.chunks, ∃ p, chunk.payload = .ok p) →
        ∃ c', decode out = .ok c' ∧ c'.chunks = c.chunks ∧
          c'.header = { c.header with
            size := UInt32.ofNat out.size
            chunkCount := UInt32.ofNat c.chunks.length }) := by
  refine ⟨?_, fun e => encode_eq_error_iff, fun out hout => ?_⟩
  · simp only [encode_eq_ok_iff, exists_and_left, exists_eq, and_true]
  obtain ⟨hplaced, rfl⟩ := encode_eq_ok_iff.1 hout
  refine ⟨c.size_written, fun hmagic hapart hpayloads => ?_⟩
  obtain ⟨payloads, hall⟩ := mapM_payload_eq_ok hpayloads
  have hheader : Header.ofBytes c.written = c.encodedHeader := ofBytes_written hplaced
  refine ⟨ofPayloads c.encodedHeader c.chunks payloads, ?_, rfl, ?_⟩
  · rw [decode_of_framed (by rw [hheader]; exact hmagic) (framed_written hplaced hsize hapart),
      listedChunks_written hplaced hsize hapart, hall, hheader]
    rfl
  · rw [size_written]
    rfl

/-- A container that was put together by hand. Its second chunk stands in front of the first, there
are gaps before and between them, and the header knows of no chunk and no size. -/
def shuffled : Container where
  header := { Header.ofBytes #[68, 88, 66, 67] with majorVersion := 1 }
  chunks := [⟨.ascii 'S' 'T' 'A' 'T', 60, #[1, 2, 3]⟩,
    ⟨.ascii 'I' 'S' 'G' 'N', 41, #[0, 0, 0, 0, 8, 0, 0, 0]⟩]
  resources := none
  inputSignature := none
  outputSignature := none
  patchConstantSignature := none
  program := none

/-- The chunks come back in the order of the table, and the header with what was written. -/
theorem decode_of_encode_shuffled :
    shuffled.encodedSize < wordLimit ∧ ∃ out c', shuffled.encode = .ok out ∧
      decode out = .ok c' ∧ c'.chunks = shuffled.chunks ∧
      c'.header = { shuffled.header with size := 71, chunkCount := 2 } := by
  have hsize : shuffled.encodedSize = 71 := by decide
  have hlt : shuffled.encodedSize < wordLimit := by rw [hsize]; decide
  obtain ⟨hok, -, hread⟩ := decode_of_encode shuffled hlt
  obtain ⟨out, hout⟩ := hok.2 (by decide)
  obtain ⟨hlength, hback⟩ := hread out hout
  -- both chunks have payloads that can be decoded
  have hpayloads : ∀ chunk ∈ shuffled.chunks, ∃ p, chunk.payload = .ok p := by
    intro chunk hchunk
    simp only [shuffled, List.mem_cons, List.not_mem_nil, or_false] at hchunk
    rcases hchunk with rfl | rfl
    · exact ⟨_, rfl⟩
    · exact ⟨.inputSignature ⟨[]⟩, rfl⟩
  obtain ⟨c', hdecode, hchunks, hheader⟩ := hback (by decide) (by decide) hpayloads
  refine ⟨hlt, out, c', hout, hdecode, hchunks, ?_⟩
  rw [hheader, hlength, hsize]
  rfl

end Container
end ShaderBytecode
