import ShaderBytecode.Proofs.Bytes.Pieces

/-!
# Reading from a cursor

Each read either finds its bytes or does not; these are the two cases, told by positions in the
buffer. A read that has room gives the piece of the buffer at the position, and the words of a table
are the words that stand at its places.

A cursor checks how many bytes remain, and a law about buffers speaks about positions. The two say
the same since a cursor never stands behind the end of its buffer. These laws are the only place
where the check is opened: above them a read is rewritten with one of its two cases, given the
inequality that decides it.
-/

namespace ShaderBytecode
namespace Cursor

/-! ### Pieces -/

/-- There is room for the bytes. -/
theorem take_eq_ok {c : Cursor} {count : Nat} (h : c.position + count ≤ c.data.size) :
    take count c
      = .ok (c.data.extract c.position (c.position + count), ⟨c.data, c.position + count, h⟩) :=
  dif_pos (by unfold remaining; omega)

/-- The buffer ends before the bytes do. -/
theorem take_eq_error {c : Cursor} {count : Nat} (h : c.data.size < c.position + count) :
    take count c = .error (.endOfData count c.remaining) :=
  dif_neg (by have := c.position_add_remaining; omega)

/-- A cursor can be set to every position of the buffer and to its end. -/
theorem seek_eq_ok {c : Cursor} {position : Nat} (h : position ≤ c.data.size) :
    c.seek position = .ok ⟨c.data, position, h⟩ :=
  dif_pos h

/-- Behind the end there is no position for a cursor. -/
theorem seek_eq_error {c : Cursor} {position : Nat} (h : c.data.size < position) :
    c.seek position = .error (.outOfBounds position c.data.size) :=
  dif_neg (Nat.not_le.2 h)

/-! ### Tables of words -/

/-- A table is read word by word if there is room for all of it. -/
theorem words_eq_ok {c : Cursor} {count : Nat} (hcount : 4 * count ≤ maxByteCount)
    (h : c.position + 4 * count ≤ c.data.size) :
    words count c
      = .ok ((List.range count).map fun k => c.data.wordAt (c.position + 4 * k),
          ⟨c.data, c.position + 4 * count, h⟩) := by
  rw [words, if_pos hcount, take_eq_ok h, ← Bytes.words_extract h]
  rfl

/-- A table of a length that is a byte count is refused for its length. -/
theorem words_eq_error {c : Cursor} {count : Nat} (hcount : 4 * count ≤ maxByteCount)
    (h : c.data.size < c.position + 4 * count) :
    words count c = .error (.endOfData (4 * count) c.remaining) := by
  rw [words, if_pos hcount, take_eq_error h]
  rfl

end Cursor

/-! ### Headers -/

namespace Header

/-- A header is there as soon as its bytes are. -/
theorem read_eq_ok {data : Bytes} (h : byteCount ≤ data.size) :
    read (Cursor.start data) = .ok (ofBytes data, ⟨data, byteCount, h⟩) := by
  have htake : Cursor.take byteCount (Cursor.start data)
      = .ok (data.extract 0 byteCount, ⟨data, byteCount, h⟩) := by
    rw [Cursor.take_eq_ok (by simpa [Cursor.start] using h)]
    simp [Cursor.start]
  simp only [read, Bind.bind, StateT.bind, htake, Except.bind]
  rw [ofBytes_extract data (Nat.le_refl _)]
  rfl

/-- A short buffer has no header, and the read says how much there is. -/
theorem read_eq_error {data : Bytes} (h : data.size < byteCount) :
    read (Cursor.start data) = .error (.endOfData byteCount data.size) := by
  have htake : Cursor.take byteCount (Cursor.start data)
      = .error (.endOfData byteCount data.size) :=
    Cursor.take_eq_error (by simpa [Cursor.start] using h)
  simp only [read, Bind.bind, StateT.bind, htake, Except.bind]

end Header
end ShaderBytecode
