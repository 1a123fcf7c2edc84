import ShaderBytecode.Proofs.Container.Framing

/-!
# The scanner and the decoder

The scanner looks for containers in larger files by their framing alone. What it finds is what the
decoder takes apart: they agree on the length, the decoder needs no byte behind it, and it can fail
only over the payload of a chunk (`scan_agrees_with_decode`).

The direction from scanner to decoder is the longer one. The decoder is given the bytes of the range
alone, and everything that it reads there has to be what it would have read in the file: the header,
the table, and the ends of the chunks. A buffer that is cut off behind its container keeps all of
these (`framed_extract`, `decode_extract`).
-/

namespace ShaderBytecode
namespace Container

/-! ### The magic tag

The scanner compares four bytes and the decoder compares tags. A tag is its four bytes. -/

/-- Where the magic tag stands in front of a header, it is the tag of the header. -/
theorem magic_ofBytes {data : Bytes} (hsize : Header.byteCount ≤ data.size)
    (h : magicAt data 0 = true) : (Header.ofBytes data).magic = Header.magicTag := by
  have hsize : 32 ≤ data.size := hsize
  have hfour : data.extract 0 (0 + 4) = Header.magicTag.toArray := by
    simpa [magicAt] using h
  have hread : ((Header.ofBytes data).magic).toArray = Header.magicTag.toArray := by
    rw [← hfour]
    exact Bytes.toArray_tag (i := 0) (by omega)
  generalize (Header.ofBytes data).magic = t at hread
  cases t
  simpa [Tag.toArray, Header.magicTag, Tag.ascii] using hread

/-- The magic tag at a position stands in front of what follows there. -/
theorem magicAt_extract {file : Bytes} {start : Nat} (h : magicAt file start = true) :
    magicAt (file.extract start file.size) 0 = true := by
  have hfour : file.extract start (start + 4) = Header.magicTag.toArray := by
    simpa [magicAt] using h
  have hsize : start + 4 ≤ file.size := by
    -- four bytes were found, so there are four bytes
    have := congrArg Array.size hfour
    simp [Header.magicTag, Tag.toArray] at this
    omega
  unfold magicAt
  rw [Array.extract_extract, Nat.add_zero, Nat.zero_add, Nat.min_eq_left (by omega), hfour]
  exact beq_self_eq_true _

/-! ### Cutting a buffer off behind its container

What the header announces is read from the first bytes, and what the table lists from the bytes
behind these. So a cut that leaves header and table leaves everything that framing speaks about. -/

/-- The size is read from the header. -/
theorem announcedSize_extract (data : Bytes) {n : Nat} (h : Header.byteCount ≤ n) :
    announcedSize (data.extract 0 n) = announcedSize data := by
  rw [announcedSize, announcedSize, Header.ofBytes_extract data h]

/-- So is the number of chunks. -/
theorem announcedCount_extract (data : Bytes) {n : Nat} (h : Header.byteCount ≤ n) :
    announcedCount (data.extract 0 n) = announcedCount data := by
  rw [announcedCount, announcedCount, Header.ofBytes_extract data h]

/-- The table is left as it is by a cut behind it. -/
theorem listedOffsets_extract (data : Bytes) {n : Nat} (h : tableEnd (announcedCount data) ≤ n) :
    listedOffsets (data.extract 0 n) = listedOffsets data := by
  unfold tableEnd at h
  rw [listedOffsets, listedOffsets, announcedCount_extract data (by omega)]
  apply List.map_congr_left
  intro k hk
  have hk := List.mem_range.1 hk
  exact Bytes.wordAt_extract data (by omega)

/-- A framed buffer is still framed when the bytes behind its container are taken away. -/
theorem framed_extract {data : Bytes} (h : Framed data) :
    Framed (data.extract 0 (announcedSize data)) := by
  have hsize := h.size_le
  have hheader := byteCount_le_announcedSize h
  have hcut : (data.extract 0 (announcedSize data)).size = announcedSize data := by
    rw [Array.size_extract]
    omega
  have hoffsets := listedOffsets_extract data h.tableEnd_le
  -- the five inequalities of `Framed`, each for the part that is left
  refine ⟨?_, ?_, ?_, ?_, ?_⟩
  · rwa [hcut]
  · exact Nat.le_of_eq ((announcedSize_extract data hheader).trans hcut.symm)
  · rw [announcedSize_extract data hheader, announcedCount_extract data hheader]
    exact h.tableEnd_le
  · intro o ho
    rw [announcedCount_extract data hheader]
    exact h.tableEnd_le_offset o (hoffsets ▸ ho)
  · intro o ho
    have hend := h.chunkEnd_le o (hoffsets ▸ ho)
    have hhead := headBytes_le_chunkEnd data o.toNat
    rw [announcedSize_extract data hheader, chunkEnd_extract (by omega)]
    exact hend

/-- The decoder does not look behind the end of a framed container. -/
theorem decode_extract {data : Bytes} (hmagic : (Header.ofBytes data).magic = Header.magicTag)
    (h : Framed data) : decode (data.extract 0 (announcedSize data)) = decode data := by
  have hheader := byteCount_le_announcedSize h
  have hbytes := Header.ofBytes_extract data hheader
  have hchunks : listedChunks (data.extract 0 (announcedSize data)) = listedChunks data := by
    rw [listedChunks, listedChunks, announcedSize_extract data hheader,
      listedOffsets_extract data h.tableEnd_le, Array.extract_extract, Nat.zero_add,
      Nat.zero_add, Nat.min_self]
  have hmagicCut : (Header.ofBytes (data.extract 0 (announcedSize data))).magic
      = Header.magicTag := by
    rw [hbytes]
    exact hmagic
  rw [decode_of_framed hmagicCut (framed_extract h), decode_of_framed hmagic h, hchunks, hbytes]

/-! ### What the scanner finds

A file is searched by going from one candidate to the next. Only where a candidate stands and that
it was accepted matters here, not how the search got there. -/

/-- An accepted candidate begins with the magic tag and has the length its framing gives. -/
theorem of_accepted_mem_candidatesFrom {file : Bytes} {position start length : Nat}
    (h : .accepted start length ∈ candidatesFrom file position) :
    magicAt file start = true ∧
      framedLength? (file.extract start file.size) = some length := by
  -- the cases of the search: the end, a candidate that is accepted, one that is not, and no tag
  fun_induction candidatesFrom file position with
  | case1 => cases h
  | case2 position _ hmagic n hn ih =>
    rcases List.mem_cons.1 h with heq | hrest
    · cases heq
      exact ⟨hmagic, hn⟩
    · exact ih hrest
  | case3 position _ hmagic hnone ih =>
    rcases List.mem_cons.1 h with heq | hrest
    · cases heq
    · exact ih hrest
  | case4 position _ hmagic ih => exact ih h

/-- A range that is found runs from a magic tag over the length its framing gives. -/
theorem of_mem_find {file : Bytes} {start stop : Nat} (h : (start, stop) ∈ find file) :
    ∃ length, stop = start + length ∧ magicAt file start = true ∧
      framedLength? (file.extract start file.size) = some length := by
  obtain ⟨candidate, hmem, hrange⟩ := List.mem_filterMap.1 h
  cases candidate with
  | accepted s length =>
    cases hrange
    exact ⟨length, rfl, of_accepted_mem_candidatesFrom hmem⟩
  | rejected s => cases hrange

/-- **Scanner and decoder agree on framing.** Of a buffer that begins with the magic tag, the
scanner accepts what the decoder decodes, with the size in its header. What the scanner accepts is
decoded from the accepted bytes alone, and only the payload of a chunk can be in the way. So each
range that is found in a file can fail to be decoded only because of a payload. -/
theorem scan_agrees_with_decode :
    (∀ data c, magicAt data 0 = true → decode data = .ok c →
      framedLength? data = some c.header.size.toNat) ∧
    (∀ data n, magicAt data 0 = true → framedLength? data = some n →
      decode (data.extract 0 n) = decode data ∧
      ((∃ c, decode data = .ok c ∧ c.header.size.toNat = n) ∨
        ∃ tag cause, decode data = .error (.chunk tag cause))) ∧
    (∀ file start stop, (start, stop) ∈ find file →
      (∃ c, decode (file.extract start stop) = .ok c ∧
        c.header.size.toNat = stop - start) ∨
        ∃ tag cause, decode (file.extract start stop) = .error (.chunk tag cause)) := by
  have haccepted : ∀ data n, magicAt data 0 = true → framedLength? data = some n →
      decode (data.extract 0 n) = decode data ∧
      ((∃ c, decode data = .ok c ∧ c.header.size.toNat = n) ∨
        ∃ tag cause, decode data = .error (.chunk tag cause)) := by
    intro data n hat hn
    obtain ⟨hframed, rfl⟩ := framedLength?_eq_some_iff.1 hn
    have hmagic := magic_ofBytes hframed.header_le hat
    refine ⟨decode_extract hmagic hframed, ?_⟩
    rw [decode_of_framed hmagic hframed]
    cases hp : (listedChunks data).mapM payload with
    | ok payloads => exact .inl ⟨_, rfl, rfl⟩
    | error e =>
      obtain ⟨c, -, cause, rfl⟩ := mapM_payload_eq_error hp
      exact .inr ⟨c.tag, cause, rfl⟩
  refine ⟨?_, haccepted, ?_⟩
  · intro data c _ hc
    obtain ⟨-, hframed, payloads, -, rfl⟩ := decode_eq_ok_iff.1 hc
    exact framedLength?_eq_some_iff.2 ⟨hframed, rfl⟩
  · intro file start stop hmem
    obtain ⟨length, rfl, hat, hlength⟩ := of_mem_find hmem
    obtain ⟨hcut, hdecode⟩ := haccepted _ _ (magicAt_extract hat) hlength
    -- a container is not empty, so a range that is found does not run past the file
    have hend : start + length ≤ file.size := by
      have hpos := byteCount_le_of_framedLength? hlength
      obtain ⟨hframed, rfl⟩ := framedLength?_eq_some_iff.1 hlength
      have hsize := hframed.size_le
      rw [Array.size_extract] at hsize
      simp only [Header.byteCount] at hpos
      omega
    have hpiece : file.extract start (start + length)
        = (file.extract start file.size).extract 0 length := by
      rw [Array.extract_extract, Nat.add_zero, Nat.min_eq_left hend]
    rw [hpiece, hcut, Nat.add_sub_cancel_left]
    exact hdecode

/-- A container of 46 bytes whose only chunk is too short to hold resource definitions, with a byte
behind it. -/
def shortResources : Bytes :=
  #[68, 88, 66, 67, 0, 0, 0, 0, 0, 0, 0, 0, 0, 0, 0, 0, 0, 0, 0, 0, 1, 0, 0, 0,
    46, 0, 0, 0, 1, 0, 0, 0, 36, 0, 0, 0, 82, 68, 69, 70, 2, 0, 0, 0, 7, 8, 255]

/-- The scanner accepts a container that the decoder refuses, but only over the payload. -/
theorem scan_agrees_with_decode_shortResources :
    magicAt shortResources 0 = true ∧ framedLength? shortResources = some 46 ∧
      decode (shortResources.extract 0 46) = decode shortResources ∧
      ∃ tag cause, decode shortResources = .error (.chunk tag cause) := by
  have hat : magicAt shortResources 0 = true := by decide
  have hlength : framedLength? shortResources = some 46 := by decide
  obtain ⟨hcut, hdecode⟩ := scan_agrees_with_decode.2.1 _ _ hat hlength
  refine ⟨hat, hlength, hcut, hdecode.resolve_left ?_⟩
  rintro ⟨c, hc, -⟩
  have hrefused : (decode shortResources).toOption.isNone = true := by decide +kernel
  rw [hc] at hrefused
  cases hrefused

end Container
end ShaderBytecode
