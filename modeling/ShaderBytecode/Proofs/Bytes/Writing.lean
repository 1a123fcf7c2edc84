import ShaderBytecode.Proofs.Bytes.Pieces

/-!
# Reading back what was written

A field that was written reads back as it was, wherever its bytes are found again:

    wordAt_eq      : data.extract i (i + 4) = ofWord w → data.wordAt i = w
    extract_middle : a piece between two others is found behind the first
    PieceAt        : a piece stands at a position, and so do the pieces that it is made of

A header is made of such pieces, and a table of words stands behind it at every fourth place.

Reading back is the other half of `Proofs/Bytes/Pieces`: there a field is read first, here it is
written first. What both need of a buffer is that some bytes stand at some place in it, and how the
buffer came about does not matter. `PieceAt` says just that, byte by byte, and takes concatenations
apart (`pieceAt_append_iff`).
-/

namespace ShaderBytecode
namespace Bytes

/-! ### Fields that are written and read again -/

/-- The two bytes of a half word are read as the half word. -/
theorem number_ofHalf (w : UInt16) : UInt16.ofNat (number (ofHalf w).toList) = w := by
  apply UInt16.toNat_inj.1
  have h := w.toNat_lt
  simp only [ofHalf, number, UInt16.toNat_ofNat', UInt16.toNat_toUInt8, UInt16.toNat_shiftRight,
    Nat.shiftRight_eq_div_pow, UInt16.toNat_ofNat, Nat.reducePow, Nat.reduceMod]
  omega

/-- A word stands where its four bytes stand. -/
theorem wordAt_eq {data : Bytes} {i : Nat} {w : UInt32} (h : data.extract i (i + 4) = ofWord w) :
    data.wordAt i = w := by
  rw [wordAt, h]
  exact number_ofWord w

/-- A half word stands where its two bytes stand. -/
theorem halfAt_eq {data : Bytes} {i : Nat} {w : UInt16} (h : data.extract i (i + 2) = ofHalf w) :
    data.halfAt i = w := by
  rw [halfAt, h]
  exact number_ofHalf w

/-! ### Pieces that are found again -/

/-- A piece of a buffer holds the bytes that it is known to hold one by one. -/
theorem extract_eq_of_getElem? {data piece : Bytes} {first : Nat}
    (h : ∀ k, k < piece.size → data[first + k]? = piece[k]?)
    (hsize : first + piece.size ≤ data.size) :
    data.extract first (first + piece.size) = piece := by
  apply Array.ext_getElem?
  intro k
  by_cases hk : k < piece.size
  · rw [Array.getElem?_extract, if_pos (by omega), h k hk]
  · rw [Array.getElem?_eq_none (by rw [Array.size_extract]; omega),
      Array.getElem?_eq_none (Nat.not_lt.1 hk)]

/-- A piece between two others is found behind the first. -/
theorem extract_middle {front piece back : Bytes} {first last : Nat} (hfirst : front.size = first)
    (hlast : first + piece.size = last) : (front ++ piece ++ back).extract first last = piece := by
  rw [← hlast]
  apply extract_eq_of_getElem?
  · intro k hk
    rw [Array.getElem?_append_left (by rw [Array.size_append]; omega),
      Array.getElem?_append_right (by omega), hfirst, Nat.add_sub_cancel_left]
  · simp only [Array.size_append]
    omega

/-- A piece behind another is found there. -/
theorem extract_last {front piece : Bytes} {first last : Nat} (hfirst : front.size = first)
    (hlast : first + piece.size = last) : (front ++ piece).extract first last = piece := by
  rw [← hlast, ← hfirst, Array.extract_append_right, Array.extract_size]

/-! ### Pieces at positions -/

/-- A piece stands at a position of a buffer. -/
def PieceAt (data : Bytes) (position : Nat) (piece : Bytes) : Prop :=
  ∀ k (h : k < piece.size), data[position + k]? = some piece[k]

section

variable {data : Bytes} {position : Nat}

/-- A piece that is not empty ends inside the buffer. -/
theorem PieceAt.le {piece : Bytes} (h : PieceAt data position piece) (hpos : 0 < piece.size) :
    position + piece.size ≤ data.size := by
  have hlast := h (piece.size - 1) (by omega)
  have hlt := (Array.getElem?_eq_some_iff.1 hlast).1
  omega

/-- A piece that stands somewhere can be cut out there. -/
theorem PieceAt.extract_eq {piece : Bytes} (h : PieceAt data position piece) :
    data.extract position (position + piece.size) = piece := by
  -- an empty piece stands anywhere, also behind the end of the buffer
  rcases Nat.eq_zero_or_pos piece.size with hzero | hpos
  · rw [Array.eq_empty_of_size_eq_zero hzero]
    exact Array.extract_empty_of_stop_le_start (Nat.le_refl _)
  · refine extract_eq_of_getElem? (fun k hk => ?_) (h.le hpos)
    rw [h k hk, Array.getElem?_eq_getElem hk]

/-- Two pieces that are joined stand one behind the other. -/
theorem pieceAt_append_iff {a b : Bytes} :
    PieceAt data position (a ++ b) ↔
      PieceAt data position a ∧ PieceAt data (position + a.size) b := by
  constructor
  · intro h
    -- the bytes of the joined piece, first those of `a` and then those of `b`
    refine ⟨fun k hk => ?_, fun k hk => ?_⟩
    · rw [h k (by rw [Array.size_append]; omega), Array.getElem_append_left hk]
    · rw [Nat.add_assoc, h (a.size + k) (by rw [Array.size_append]; omega),
        Array.getElem_append_right (Nat.le_add_right _ _)]
      simp only [Nat.add_sub_cancel_left]
  · rintro ⟨ha, hb⟩ k hk
    rw [Array.size_append] at hk
    by_cases hka : k < a.size
    · rw [Array.getElem_append_left hka, ha k hka]
    · have hk' := hb (k - a.size) (by omega)
      rw [Nat.add_assoc, Nat.add_sub_cancel' (Nat.not_lt.1 hka)] at hk'
      rw [Array.getElem_append_right (Nat.not_lt.1 hka), hk']

/-- A buffer stands at its own start. -/
theorem pieceAt_self (data : Bytes) : PieceAt data 0 data := by
  intro k hk
  rw [Nat.zero_add, Array.getElem?_eq_getElem hk]

/-- A word is read where its bytes stand. -/
theorem PieceAt.wordAt_eq {w : UInt32} (h : PieceAt data position (ofWord w)) :
    data.wordAt position = w :=
  Bytes.wordAt_eq h.extract_eq

end

/-! ### Words in a row

A table is written by appending word after word to what is there. The inductions are on the words,
with what stands in front of them generalized, since every word that is written becomes part of the
front for the next. -/

/-- Writing pieces behind each other and then behind a first one is writing all of them behind each
other. -/
theorem foldl_append_eq (front : Bytes) (pieces : List Bytes) :
    pieces.foldl (· ++ ·) front = front ++ pieces.foldl (· ++ ·) #[] := by
  induction pieces generalizing front with
  | nil => exact (Array.append_empty).symm
  | cons piece pieces ih =>
    rw [List.foldl_cons, List.foldl_cons, ih, ih (#[] ++ piece), Array.empty_append,
      Array.append_assoc]

/-- Each word adds four bytes to what is there. -/
@[simp] theorem size_foldl_ofWord (front : Bytes) (words : List UInt32) :
    ((words.map ofWord).foldl (· ++ ·) front).size = front.size + 4 * words.length := by
  induction words generalizing front with
  | nil => rfl
  | cons w words ih =>
    rw [List.map_cons, List.foldl_cons, ih, Array.size_append, size_ofWord, List.length_cons]
    omega

/-- Words that are written one after the other are found at every fourth place. -/
theorem wordAt_foldl_ofWord {front : Bytes} {words : List UInt32} {k : Nat}
    (hk : k < words.length) :
    wordAt ((words.map ofWord).foldl (· ++ ·) front) (front.size + 4 * k) = words[k] := by
  induction words generalizing front k with
  | nil => cases hk
  | cons w words ih =>
    rw [List.map_cons, List.foldl_cons]
    cases k with
    -- the first word stands at the front
    | zero =>
      rw [foldl_append_eq]
      exact wordAt_eq (extract_middle rfl rfl)
    -- the others stand behind a front with one word more
    | succ k =>
      have hplace : front.size + 4 * (k + 1) = (front ++ ofWord w).size + 4 * k := by
        rw [Array.size_append, size_ofWord]
        omega
      rw [hplace]
      exact ih (Nat.lt_of_succ_lt_succ hk)

end Bytes

namespace Header

/-- A header that is written and read again is the same header. -/
theorem ofBytes_toBytes (h : Header) : ofBytes h.toBytes = h := by
  -- every field is cut out of the six that were appended
  have hmagic : h.toBytes.extract 0 4 = h.magic.toArray := by
    simp [toBytes, Tag.toArray, Array.extract_append]
  have hdigest : h.toBytes.extract 4 20 = h.digest.toArray := by
    rw [toBytes, Array.append_assoc, Array.append_assoc, Array.append_assoc]
    exact Bytes.extract_middle rfl (by simp)
  have hmajor : h.toBytes.extract 20 22 = Bytes.ofHalf h.majorVersion := by
    rw [toBytes, Array.append_assoc, Array.append_assoc]
    exact Bytes.extract_middle (by simp [Tag.toArray]) rfl
  have hminor : h.toBytes.extract 22 24 = Bytes.ofHalf h.minorVersion := by
    rw [toBytes, Array.append_assoc]
    exact Bytes.extract_middle (by simp [Tag.toArray]) rfl
  have hsize : h.toBytes.extract 24 28 = Bytes.ofWord h.size :=
    Bytes.extract_middle (by simp [Tag.toArray]) rfl
  have hcount : h.toBytes.extract 28 32 = Bytes.ofWord h.chunkCount :=
    Bytes.extract_last (by simp [Tag.toArray]) rfl
  -- the digest is a vector of bytes, so it is compared byte by byte
  have hdigest : (Vector.ofFn fun i => (h.toBytes[4 + i.val]?).getD 0) = h.digest := by
    apply Vector.ext
    intro i hi
    have hbyte : h.toBytes[4 + i]? = some h.digest[i] := by
      have hpiece : (h.toBytes.extract 4 20)[i]? = some h.digest[i] := by
        rw [hdigest, Vector.getElem?_toArray, Vector.getElem?_eq_getElem hi]
      rwa [Array.getElem?_extract, if_pos (by rw [size_toBytes, byteCount]; omega)] at hpiece
    rw [Vector.getElem_ofFn, hbyte, Option.getD_some]
  simp only [ofBytes, hmagic, hdigest, Bytes.halfAt_eq hmajor, Bytes.halfAt_eq hminor,
    Bytes.wordAt_eq hsize, Bytes.wordAt_eq hcount]
  rfl

end Header
end ShaderBytecode
