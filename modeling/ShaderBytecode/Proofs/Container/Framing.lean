import ShaderBytecode.Container.Decode
import ShaderBytecode.Container.Scan
import ShaderBytecode.Proofs.Bytes.Reading

/-!
# What a well framed container is

Two readers look at the framing of a container. `Container.decode` reads the header and the table
and then takes the chunks apart one by one; `Container.framedLength?` only adds up sizes. Both are
characterised here by one predicate on buffers:

    framedLength?_eq_some_iff : framedLength? data = some n ↔ Framed data ∧ announcedSize data = n
    decode_eq_ok_iff          : decode data = .ok c ↔ … ∧ Framed data ∧ …

so that whatever is said of one of them can be said of the other. Nothing but the payload of a
chunk is then left that decoding could object to (`decode_of_framed`).

A container is framed by positions: where the header ends, where the table ends, where each chunk
begins and ends, and where the container ends. `Framed` lists the inequalities between them. Both
readers test them in their own order and with their own words for what is wrong, so for each reader
there is first one equation that shows all of its tests (`frame_eq`, `chunkAt_eq`), and the
equivalence with `Framed` only after that.
-/

namespace ShaderBytecode
namespace Container

/-! ### What a buffer announces

These are read off the buffer alone, with zeros where it is too short to hold what is asked for.
They mean something only where the buffer is framed. -/

/-- The size that the header of a buffer gives. -/
def announcedSize (data : Bytes) : Nat := (Header.ofBytes data).size.toNat

/-- The number of chunks that the header of a buffer gives. -/
def announcedCount (data : Bytes) : Nat := (Header.ofBytes data).chunkCount.toNat

/-- The offsets that stand in the chunk table of a buffer. -/
def listedOffsets (data : Bytes) : List UInt32 :=
  (List.range (announcedCount data)).map fun k => data.wordAt (Header.byteCount + 4 * k)

/-- The position behind the chunk that begins at an offset, by the size it gives itself. -/
def chunkEnd (data : Bytes) (offset : Nat) : Nat :=
  offset + Chunk.headBytes + (data.wordAt (offset + 4)).toNat

/-- The buffer has room for the size its header gives, that has room for the chunk table, and each
chunk lies between the two. -/
structure Framed (data : Bytes) : Prop where
  header_le : Header.byteCount ≤ data.size
  size_le : announcedSize data ≤ data.size
  tableEnd_le : tableEnd (announcedCount data) ≤ announcedSize data
  tableEnd_le_offset : ∀ o ∈ listedOffsets data, tableEnd (announcedCount data) ≤ o.toNat
  chunkEnd_le : ∀ o ∈ listedOffsets data, chunkEnd data o.toNat ≤ announcedSize data

/-- The chunk that begins at an offset of a buffer. -/
def chunkPiece (data : Bytes) (offset : UInt32) : Chunk where
  tag := (Tag.ofList? (data.extract offset.toNat (offset.toNat + 4)).toList).getD default
  offset := offset
  data := data.extract (offset.toNat + Chunk.headBytes) (chunkEnd data offset.toNat)

/-- The chunks that the table of a buffer lists. -/
def listedChunks (data : Bytes) : List Chunk :=
  (listedOffsets data).map (chunkPiece (data.extract 0 (announcedSize data)))

/-- The table has an entry for each chunk that the header announces. -/
@[simp] theorem length_listedOffsets (data : Bytes) :
    (listedOffsets data).length = announcedCount data := by
  simp [listedOffsets]

/-- So has the list of chunks. -/
@[simp] theorem length_listedChunks (data : Bytes) :
    (listedChunks data).length = announcedCount data := by
  simp [listedChunks]

/-- A container that has room for its table has room for its header. -/
theorem byteCount_le_announcedSize {data : Bytes} (h : Framed data) :
    Header.byteCount ≤ announcedSize data := by
  have ht := h.tableEnd_le
  unfold tableEnd at ht
  omega

/-- Sizes and offsets are words, so the table never asks for more bytes than can be counted. -/
theorem four_mul_announcedCount_le (data : Bytes) :
    4 * announcedCount data ≤ Cursor.maxByteCount := by
  have h := (Header.ofBytes data).chunkCount.toNat_lt
  unfold announcedCount Cursor.maxByteCount
  omega

/-! ### The scanner

The scanner only compares positions. It accepts chunks in any order and also chunks that lie over
each other, as the decoder does. -/

/-- A chunk fits if it begins behind the table and ends within the container. -/
theorem chunkFits_iff {data : Bytes} {first size offset : Nat} :
    chunkFits data first size offset = true ↔ first ≤ offset ∧ chunkEnd data offset ≤ size := by
  simp only [chunkFits, chunkEnd, Bool.and_eq_true, decide_eq_true_eq]
  constructor
  · rintro ⟨⟨hfirst, -⟩, hend⟩
    exact ⟨hfirst, hend⟩
  · rintro ⟨hfirst, hend⟩
    exact ⟨⟨hfirst, by omega⟩, hend⟩

/-- The scanner accepts exactly the framed buffers, and answers the size they announce. -/
theorem framedLength?_eq_some_iff {data : Bytes} {n : Nat} :
    framedLength? data = some n ↔ Framed data ∧ announcedSize data = n := by
  -- the test of all table entries at once, as a statement about the offsets
  have hall : ((List.range (announcedCount data)).all fun index =>
        chunkFits data (tableEnd (announcedCount data)) (announcedSize data)
          (data.wordAt (Header.byteCount + 4 * index)).toNat) = true ↔
      ∀ o ∈ listedOffsets data, tableEnd (announcedCount data) ≤ o.toNat ∧
        chunkEnd data o.toNat ≤ announcedSize data := by
    simp [listedOffsets, chunkFits_iff]
  -- unfolded up to the tests, which then are taken one by one
  change (if data.size < Header.byteCount then none
    else if data.size < announcedSize data ∨ announcedSize data < tableEnd (announcedCount data)
      then none
    else if ((List.range (announcedCount data)).all fun index =>
        chunkFits data (tableEnd (announcedCount data)) (announcedSize data)
          (data.wordAt (Header.byteCount + 4 * index)).toNat) = true
      then some (announcedSize data) else none) = some n ↔ _
  constructor
  · intro h
    split at h
    · cases h
    · next hheader =>
      split at h
      · cases h
      · next hsize =>
        split at h
        · next hchunks =>
          have hchunks := hall.1 hchunks
          cases h
          exact ⟨⟨by omega, by omega, by omega, fun o ho => (hchunks o ho).1,
            fun o ho => (hchunks o ho).2⟩, rfl⟩
        · cases h
  · rintro ⟨h, rfl⟩
    have hsize := h.size_le
    have htable := h.tableEnd_le
    rw [if_neg (Nat.not_lt.2 h.header_le), if_neg (by omega),
      if_pos (hall.2 fun o ho => ⟨h.tableEnd_le_offset o ho, h.chunkEnd_le o ho⟩)]

/-! ### The header and the table

The decoder reads the header from the whole buffer, and all else from the part of it that the header
claims. What is cut off there cannot be seen any more, so the positions of the chunks are compared
with the size of the part. -/

/-- A result has no fault to be worded differently. -/
theorem mapError_ok (a : α) (f : ε → ε') : (Except.ok a : Except ε α).mapError f = .ok a := rfl

/-- What stands in the way of reading the header and the table, in the order in which it is
noticed. -/
theorem frame_eq (data : Bytes) :
    frame data =
      if data.size < Header.byteCount then
        .error (.read (.endOfData Header.byteCount data.size))
      else if (Header.ofBytes data).magic ≠ Header.magicTag then
        .error (.magic (Header.ofBytes data).magic)
      else if data.size < announcedSize data then
        .error (.read (.endOfData (announcedSize data) data.size))
      else if announcedSize data < Header.byteCount then
        .error (.read (.outOfBounds Header.byteCount (announcedSize data)))
      else if announcedSize data < tableEnd (announcedCount data) then
        .error (.read (.endOfData (4 * announcedCount data)
          (announcedSize data - Header.byteCount)))
      else .ok ⟨Header.ofBytes data, data.extract 0 (announcedSize data), listedOffsets data⟩ := by
  unfold frame
  -- the tests in the order of the program, each followed by what it refuses
  by_cases hheader : data.size < Header.byteCount
  · rw [if_pos hheader, Header.read_eq_error hheader]
    rfl
  rw [if_neg hheader, Header.read_eq_ok (Nat.not_lt.1 hheader)]
  by_cases hmagic : (Header.ofBytes data).magic ≠ Header.magicTag
  · rw [if_pos hmagic]
    simp only [Bind.bind, Except.bind, mapError_ok, if_pos hmagic]
    rfl
  rw [if_neg hmagic]
  have hannounced : (Header.ofBytes data).size.toNat = announcedSize data := rfl
  have hlisted : (Header.ofBytes data).chunkCount.toNat = announcedCount data := rfl
  simp only [Bind.bind, Except.bind, mapError_ok, if_neg hmagic, hannounced, hlisted]
  by_cases hsize : data.size < announcedSize data
  · rw [if_pos hsize, if_pos hsize]
    rfl
  rw [if_neg hsize, if_neg hsize]
  -- What is left reads from the part of the buffer that belongs to the container.
  generalize hcut : data.extract 0 (announcedSize data) = cut
  have hsize : cut.size = announcedSize data := by
    rw [← hcut, Array.size_extract]
    omega
  rw [← hsize]
  by_cases hstart : cut.size < Header.byteCount
  · rw [if_pos hstart, Cursor.seek_eq_error (c := .start cut) hstart]
    rfl
  have hseek : (Cursor.start cut).seek Header.byteCount
      = .ok ⟨cut, Header.byteCount, Nat.not_lt.1 hstart⟩ := Cursor.seek_eq_ok _
  rw [if_neg hstart, hseek]
  simp only [mapError_ok]
  have hcount := four_mul_announcedCount_le data
  by_cases htable : cut.size < tableEnd (announcedCount data)
  · rw [if_pos htable, Cursor.words_eq_error (c := ⟨cut, Header.byteCount, _⟩) hcount htable]
    rfl
  · rw [if_neg htable,
      Cursor.words_eq_ok (c := ⟨cut, Header.byteCount, _⟩) hcount (Nat.not_lt.1 htable)]
    -- the table lies within the cut, so its words are those of the buffer
    have hoffsets : listedOffsets data = (List.range (announcedCount data)).map fun k =>
        Bytes.wordAt cut (Header.byteCount + 4 * k) := by
      apply List.map_congr_left
      intro k hk
      have hk := List.mem_range.1 hk
      rw [← hcut, Bytes.wordAt_extract]
      unfold tableEnd at htable
      omega
    rw [hoffsets]
    rfl

/-- A buffer that begins with the magic tag and is framed has a header and a table. -/
theorem frame_of_framed {data : Bytes} (hmagic : (Header.ofBytes data).magic = Header.magicTag)
    (h : Framed data) :
    frame data
      = .ok ⟨Header.ofBytes data, data.extract 0 (announcedSize data), listedOffsets data⟩ := by
  rw [frame_eq, if_neg (Nat.not_lt.2 h.header_le), if_neg (fun hne => hne hmagic),
    if_neg (Nat.not_lt.2 h.size_le), if_neg (Nat.not_lt.2 (byteCount_le_announcedSize h)),
    if_neg (Nat.not_lt.2 h.tableEnd_le)]

/-- What is known once the header and the table have been read. -/
theorem of_frame_eq_ok {data : Bytes} {f : Frame} (h : frame data = .ok f) :
    (Header.ofBytes data).magic = Header.magicTag ∧ Header.byteCount ≤ data.size ∧
      announcedSize data ≤ data.size ∧ tableEnd (announcedCount data) ≤ announcedSize data ∧
      f = ⟨Header.ofBytes data, data.extract 0 (announcedSize data), listedOffsets data⟩ := by
  -- the checks in their order: header, magic, size, table
  rw [frame_eq] at h
  split at h
  · cases h
  next hheader =>
  split at h
  · cases h
  next hmagic =>
  split at h
  · cases h
  next hsize =>
  split at h
  · cases h
  split at h
  · cases h
  next htable =>
  cases h
  exact ⟨Decidable.not_not.1 hmagic, Nat.not_lt.1 hheader, Nat.not_lt.1 hsize,
    Nat.not_lt.1 htable, rfl⟩

/-! ### The chunks

Chunks are taken one after the other, and a run of them keeps those that were taken before the first
that does not fit. For a framed buffer there is no such chunk. -/

/-- A chunk is taken if it lies between the table and the end. -/
theorem chunkAt_eq (data : Bytes) (first index : Nat) (offset : UInt32) :
    chunkAt data first index offset =
      if first ≤ offset.toNat ∧ chunkEnd data offset.toNat ≤ data.size then
        .ok (chunkPiece data offset)
      else .error (.chunkBounds index offset.toNat data.size) := by
  have hhead : chunkEnd data offset.toNat
      = offset.toNat + Chunk.headBytes + (data.wordAt (offset.toNat + 4)).toNat := rfl
  unfold chunkAt
  dsimp only
  rw [← hhead]
  by_cases hstart : offset.toNat < first ∨ data.size < offset.toNat + Chunk.headBytes
  · rw [if_pos hstart, if_neg (by omega)]
  rw [if_neg hstart]
  by_cases hend : data.size < chunkEnd data offset.toNat
  · rw [if_pos hend, if_neg (by omega)]
  · rw [if_neg hend, if_pos (by omega)]
    rfl

/-- Where all chunks lie between the table and the end, all are taken. -/
theorem chunksFrom_eq {data : Bytes} {first : Nat} (index : Nat) {offsets : List UInt32}
    (h : ∀ o ∈ offsets, first ≤ o.toNat ∧ chunkEnd data o.toNat ≤ data.size) :
    chunksFrom data first index offsets = ⟨offsets.map (chunkPiece data), none⟩ := by
  induction offsets generalizing index with
  | nil => rfl
  | cons o offsets ih =>
    -- the chunk fits, so the run goes on behind it
    have hrest := ih (index + 1) fun o' ho' => h o' (List.mem_cons_of_mem o ho')
    rw [chunksFrom, chunkAt_eq, if_pos (h o List.mem_cons_self), hrest]
    rfl

/-- Chunks are taken without a fault only where all lie between the table and the end. -/
theorem of_fault_chunksFrom_eq_none {data : Bytes} {first index : Nat} {offsets : List UInt32}
    (h : (chunksFrom data first index offsets).fault = none) :
    ∀ o ∈ offsets, first ≤ o.toNat ∧ chunkEnd data o.toNat ≤ data.size := by
  induction offsets generalizing index with
  | nil => simp
  | cons o offsets ih =>
    rw [chunksFrom, chunkAt_eq] at h
    split at h
    · next heq =>
      split at heq
      · cases heq
      · cases heq; cases h
    · next heq =>
      split at heq
      · next hfit => exact List.forall_mem_cons.2 ⟨hfit, ih h⟩
      · cases heq

/-- The ends of chunks that begin in front of the announced size are the same in the part of the
buffer that belongs to the container. -/
theorem chunkEnd_extract {data : Bytes} {n offset : Nat} (h : offset + Chunk.headBytes ≤ n) :
    chunkEnd (data.extract 0 n) offset = chunkEnd data offset := by
  unfold Chunk.headBytes at h
  rw [chunkEnd, chunkEnd, Bytes.wordAt_extract _ (by omega)]

/-- The head of a chunk lies in front of its end. -/
theorem headBytes_le_chunkEnd (data : Bytes) (offset : Nat) :
    offset + Chunk.headBytes ≤ chunkEnd data offset :=
  Nat.le_add_right _ _

/-! ### Decoding

Payloads come last. A fault in one of them says which chunk it is in, and no fault of the framing
does, so the two can be told apart by the fault alone (`mapM_payload_eq_error`). -/

/-- The payload of a chunk is decoded, or the fault carries the tag of the chunk. -/
theorem payload_eq_error {c : Chunk} {e : ContainerError} (h : payload c = .error e) :
    ∃ cause, e = .chunk c.tag cause := by
  unfold payload at h
  cases hp : c.payload with
  | error cause => rw [hp] at h; cases h; exact ⟨cause, rfl⟩
  | ok p => rw [hp] at h; cases h

/-- When the payloads of some chunks cannot be decoded, one of the chunks is to blame. -/
theorem mapM_payload_eq_error {chunks : List Chunk} {e : ContainerError}
    (h : chunks.mapM payload = .error e) : ∃ c ∈ chunks, ∃ cause, e = .chunk c.tag cause := by
  induction chunks with
  | nil => cases h
  | cons c chunks ih =>
    rw [List.mapM_cons] at h
    cases hc : payload c with
    -- the first chunk with an error gives it
    | error e' =>
      rw [hc] at h
      cases h
      exact ⟨c, List.mem_cons_self, payload_eq_error hc⟩
    | ok p =>
      rw [hc] at h
      cases hcs : chunks.mapM payload with
      | error e' =>
        simp only [hcs] at h
        cases h
        obtain ⟨c', hmem, hcause⟩ := ih hcs
        exact ⟨c', List.mem_cons_of_mem c hmem, hcause⟩
      | ok ps => simp only [hcs] at h; cases h

/-- The chunks of a framed buffer are those its table lists. -/
theorem chunks_of_framed {data : Bytes} (h : Framed data) :
    Frame.chunks ⟨Header.ofBytes data, data.extract 0 (announcedSize data), listedOffsets data⟩
      = ⟨listedChunks data, none⟩ := by
  unfold Frame.chunks
  dsimp only
  rw [length_listedOffsets]
  apply chunksFrom_eq
  intro o ho
  have hsize := h.size_le
  have hend := h.chunkEnd_le o ho
  have hhead := headBytes_le_chunkEnd data o.toNat
  refine ⟨h.tableEnd_le_offset o ho, ?_⟩
  rw [chunkEnd_extract (by omega), Array.size_extract]
  omega

/-- Once the framing is right, only the payloads decide. -/
theorem decode_of_framed {data : Bytes} (hmagic : (Header.ofBytes data).magic = Header.magicTag)
    (h : Framed data) :
    decode data = ((listedChunks data).mapM payload).map
      (ofPayloads (Header.ofBytes data) (listedChunks data)) := by
  unfold decode
  rw [frame_of_framed hmagic h]
  simp only [Bind.bind, Except.bind]
  rw [chunks_of_framed h]
  cases (listedChunks data).mapM payload with
  | error e => rfl
  | ok payloads => rfl

/-- What has been decoded was framed. -/
theorem framed_of_decode {data : Bytes} {c : Container} (h : decode data = .ok c) :
    (Header.ofBytes data).magic = Header.magicTag ∧ Framed data := by
  unfold decode at h
  cases hf : frame data with
  | error e => rw [hf] at h; cases h
  | ok f =>
    obtain ⟨hmagic, hheader, hsize, htable, rfl⟩ := of_frame_eq_ok hf
    have hfault : (Frame.chunks ⟨Header.ofBytes data, data.extract 0 (announcedSize data),
        listedOffsets data⟩).fault = none := by
      -- decoding went past the chunks, so none of them was refused
      rw [hf] at h
      simp only [Bind.bind, Except.bind] at h
      split at h
      · cases h
      · split at h
        · cases h
        · next hresult =>
          unfold Run.result at hresult
          split at hresult
          · next hnone => exact hnone
          · cases hresult
    -- the size of the part is the announced one, since the buffer is long enough
    have hcut : (data.extract 0 (announcedSize data)).size = announcedSize data := by
      rw [Array.size_extract]
      omega
    unfold Frame.chunks at hfault
    dsimp only at hfault
    rw [length_listedOffsets] at hfault
    have hfit := of_fault_chunksFrom_eq_none hfault
    refine ⟨hmagic, hheader, hsize, htable, fun o ho => (hfit o ho).1, fun o ho => ?_⟩
    have hend := (hfit o ho).2
    have hhead := headBytes_le_chunkEnd (data.extract 0 (announcedSize data)) o.toNat
    rw [hcut] at hend
    rwa [chunkEnd_extract (by omega)] at hend

/-- A container is decoded exactly from a framed buffer whose payloads can be decoded. -/
theorem decode_eq_ok_iff {data : Bytes} {c : Container} :
    decode data = .ok c ↔
      (Header.ofBytes data).magic = Header.magicTag ∧ Framed data ∧
        ∃ payloads, (listedChunks data).mapM payload = .ok payloads ∧
          c = ofPayloads (Header.ofBytes data) (listedChunks data) payloads := by
  constructor
  · intro h
    obtain ⟨hmagic, hframed⟩ := framed_of_decode h
    rw [decode_of_framed hmagic hframed] at h
    refine ⟨hmagic, hframed, ?_⟩
    cases hp : (listedChunks data).mapM payload with
    | error e => rw [hp] at h; cases h
    | ok payloads => rw [hp] at h; cases h; exact ⟨payloads, rfl, rfl⟩
  · rintro ⟨hmagic, hframed, payloads, hp, rfl⟩
    rw [decode_of_framed hmagic hframed, hp]
    rfl

end Container
end ShaderBytecode
