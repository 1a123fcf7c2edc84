import ShaderBytecode.Container.Header

/-!
# Pieces of a buffer

A field that is read at some place of a buffer and written again gives the piece of the buffer
that it was read from, as long as that piece lies within the buffer:

    ofWord_wordAt : ofWord (data.wordAt i) = data.extract i (i + 4)

The same holds of half words, tags and whole headers. Reading below `n` does not notice that the
buffer has been cut off at `n`. And a piece that is written where it was taken from is, byte by
byte, either the old contents or the buffer it was taken from (`getElem?_overwrite_extract`), so
that pieces of one buffer may be written over each other in any order.

Everything here is about the buffer alone. A buffer is an array, and the number that a piece of it
stands for is computed from the list of its bytes, so each law is first shown for a list of two or
four bytes and then for the piece that has these bytes.
-/

namespace ShaderBytecode
namespace Bytes

/-! ### Fields that are read and written again

A field is read as a number and split into bytes again. For a byte this is the identity, and for the
places of a number it is arithmetic: the byte at a place is the number divided by the place, modulo
256. -/

/-- Two bytes are what a half word is made of. -/
theorem ofHalf_ofNat_number (a b : UInt8) :
    ofHalf (UInt16.ofNat (number [a, b])) = #[a, b] := by
  have ha := a.toNat_lt
  have hb := b.toNat_lt
  simp only [ofHalf, number, Array.mk.injEq, List.cons.injEq, ← UInt8.toNat_inj,
    UInt16.toNat_toUInt8, UInt16.toNat_shiftRight, UInt16.toNat_ofNat',
    Nat.shiftRight_eq_div_pow, UInt16.toNat_ofNat, Nat.reducePow, Nat.reduceMod, and_true]
  omega

/-- Four bytes are what a word is made of. -/
theorem ofWord_ofNat_number (a b c d : UInt8) :
    ofWord (UInt32.ofNat (number [a, b, c, d])) = #[a, b, c, d] := by
  have ha := a.toNat_lt
  have hb := b.toNat_lt
  have hc := c.toNat_lt
  have hd := d.toNat_lt
  simp only [ofWord, number, Array.mk.injEq, List.cons.injEq, ← UInt8.toNat_inj,
    UInt32.toNat_toUInt8, UInt32.toNat_shiftRight, UInt32.toNat_ofNat',
    Nat.shiftRight_eq_div_pow, UInt32.toNat_ofNat, Nat.reducePow, Nat.reduceMod, and_true]
  omega

/-- A piece of two bytes, written out. -/
theorem extract_two {data : Bytes} {i : Nat} (h : i + 2 ≤ data.size) :
    data.extract i (i + 2) = #[data[i], data[i + 1]] := by
  apply Array.ext
  · simp; omega
  · intro j hj _
    simp only [Array.size_extract] at hj
    match j, (by omega : j < 2) with
    | 0, _ => simp
    | 1, _ => simp

/-- A piece of four bytes, written out. -/
theorem extract_four {data : Bytes} {i : Nat} (h : i + 4 ≤ data.size) :
    data.extract i (i + 4) = #[data[i], data[i + 1], data[i + 2], data[i + 3]] := by
  apply Array.ext
  · simp; omega
  · intro j hj _
    simp only [Array.size_extract] at hj
    match j, (by omega : j < 4) with
    | 0, _ => simp
    | 1, _ => simp
    | 2, _ => simp
    | 3, _ => simp

/-- A half word that is read and written again gives the piece it was read from. -/
theorem ofHalf_halfAt {data : Bytes} {i : Nat} (h : i + 2 ≤ data.size) :
    ofHalf (data.halfAt i) = data.extract i (i + 2) := by
  rw [halfAt, extract_two h]
  exact ofHalf_ofNat_number _ _

/-- A word that is read and written again gives the piece it was read from. -/
theorem ofWord_wordAt {data : Bytes} {i : Nat} (h : i + 4 ≤ data.size) :
    ofWord (data.wordAt i) = data.extract i (i + 4) := by
  rw [wordAt, extract_four h]
  exact ofWord_ofNat_number _ _ _ _

/-- A tag that is read and written again gives the piece it was read from. -/
theorem toArray_tag {data : Bytes} {i : Nat} (h : i + 4 ≤ data.size) :
    ((Tag.ofList? (data.extract i (i + 4)).toList).getD default).toArray
      = data.extract i (i + 4) := by
  rw [extract_four h]
  rfl

/-! ### Reading from a part of a buffer -/

/-- Cutting a buffer off behind a word does not change the word. -/
theorem wordAt_extract (data : Bytes) {n i : Nat} (h : i + 4 ≤ n) :
    wordAt (data.extract 0 n) i = data.wordAt i := by
  simp only [wordAt, Array.extract_extract, Nat.zero_add, Nat.min_eq_left h]

/-- The words behind a position are read one after the other. -/
theorem words_extract {data : Bytes} {first count : Nat} (h : first + 4 * count ≤ data.size) :
    words (data.extract first (first + 4 * count))
      = (List.range count).map fun k => data.wordAt (first + 4 * k) := by
  have hsize : (data.extract first (first + 4 * count)).size / 4 = count := by
    rw [Array.size_extract, Nat.min_eq_left h]
    omega
  rw [words, hsize]
  apply List.map_congr_left
  intro k hk
  have hk := List.mem_range.1 hk
  simp only [wordAt, Array.extract_extract]
  rw [Nat.min_eq_left (by omega), Nat.add_assoc]

/-- Two pieces that meet make one piece. -/
theorem extract_append_extract (data : Bytes) {a b c : Nat} (hab : a ≤ b) (hbc : b ≤ c) :
    data.extract a b ++ data.extract b c = data.extract a c := by
  rw [Array.extract_append_extract, Nat.min_eq_left hab, Nat.max_eq_right hbc]

/-- The words behind a position, written one after the other, give the piece they were read
from. -/
theorem foldl_ofWord {data : Bytes} {first : Nat} (count : Nat)
    (h : first + 4 * count ≤ data.size) :
    ((List.range count).map fun k => ofWord (data.wordAt (first + 4 * k))).foldl (· ++ ·) #[]
      = data.extract first (first + 4 * count) := by
  induction count with
  | zero =>
    rw [Nat.mul_zero, Nat.add_zero, Array.extract_empty_of_stop_le_start (Nat.le_refl _)]
    rfl
  | succ count ih =>
    -- the last word stands behind the piece that the words in front of it give
    rw [List.range_succ, List.map_append, List.foldl_append, ih (by omega)]
    simp only [List.map_cons, List.map_nil, List.foldl_cons, List.foldl_nil]
    rw [ofWord_wordAt (by omega)]
    exact extract_append_extract data (Nat.le_add_right _ _) (Nat.le_add_right _ _)

/-! ### Writing pieces

Writing back is done in several steps that may overlap. The law for one step is told byte by byte,
so that it can be used whatever the steps before have left. -/

/-- A piece of a buffer, written where it was taken from: what it covers is the buffer, all else
is as before. -/
theorem getElem?_overwrite_extract {out data : Bytes} {a b i : Nat} (hb : b ≤ data.size)
    (hi : i < out.size) :
    (overwrite out a (data.extract a b))[i]?
      = if a ≤ i ∧ i < b then data[i]? else out[i]? := by
  rw [getElem?_overwrite, Array.getElem?_eq_getElem hi]
  by_cases ha : a ≤ i
  · -- inside of the piece, and then behind its end
    by_cases hib : i < b
    · have hnew : (data.extract a b)[i - a]? = some data[i] := by
        rw [Array.getElem?_extract, if_pos (by omega), Nat.add_sub_cancel' ha,
          Array.getElem?_eq_getElem (by omega)]
      simp [ha, hib, hnew]
    · have hnew : (data.extract a b)[i - a]? = none :=
        Array.getElem?_eq_none (by rw [Array.size_extract]; omega)
      simp [ha, hib, hnew]
  · simp [ha]

end Bytes

namespace Header

/-- A header that is read and written again gives the front of the buffer. -/
theorem toBytes_ofBytes {data : Bytes} (h : byteCount ≤ data.size) :
    (ofBytes data).toBytes = data.extract 0 byteCount := by
  have hsize : 32 ≤ data.size := h
  -- sixteen bytes in the middle, each read on its own
  have hdigest : (ofBytes data).digest.toArray = data.extract 4 20 := by
    apply Array.ext
    · simp; omega
    · intro i hi hi'
      have hi : i < 16 := by simpa using hi
      simp [ofBytes, Array.getElem?_eq_getElem (show 4 + i < data.size by omega)]
  have hmagic : (ofBytes data).magic.toArray = data.extract 0 4 :=
    Bytes.toArray_tag (i := 0) (by omega)
  have hmajor : Bytes.ofHalf (ofBytes data).majorVersion = data.extract 20 22 :=
    Bytes.ofHalf_halfAt (i := 20) (by omega)
  have hminor : Bytes.ofHalf (ofBytes data).minorVersion = data.extract 22 24 :=
    Bytes.ofHalf_halfAt (i := 22) (by omega)
  have hlength : Bytes.ofWord (ofBytes data).size = data.extract 24 28 :=
    Bytes.ofWord_wordAt (i := 24) (by omega)
  have hcount : Bytes.ofWord (ofBytes data).chunkCount = data.extract 28 32 :=
    Bytes.ofWord_wordAt (i := 28) (by omega)
  -- the six fields stand one behind the other without a gap
  rw [toBytes, hmagic, hdigest, hmajor, hminor, hlength, hcount]
  simp [byteCount]

/-- The header of a buffer is read from its first bytes. -/
theorem ofBytes_extract (data : Bytes) {n : Nat} (h : byteCount ≤ n) :
    ofBytes (data.extract 0 n) = ofBytes data := by
  have hn : 32 ≤ n := h
  simp only [ofBytes, Bytes.halfAt, Bytes.wordAt, Array.extract_extract, Nat.zero_add]
  rw [Nat.min_eq_left (by omega), Nat.min_eq_left (by omega), Nat.min_eq_left (by omega),
    Nat.min_eq_left (by omega), Nat.min_eq_left (by omega)]
  congr
  funext i
  rw [Array.getElem?_extract, Nat.zero_add]
  split
  · rfl
  · rw [Array.getElem?_eq_none (by omega)]

end Header
end ShaderBytecode
