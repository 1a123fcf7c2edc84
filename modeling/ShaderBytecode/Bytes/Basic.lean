/-!
# Bytes and little-endian words

Numbers in bytecode stand with their low byte first. `Bytes.number` reads a list of bytes as one
number and `Bytes.ofWord` writes a 32-bit word, so that `number_ofWord` gives the word back.
-/

namespace ShaderBytecode

def wordLimit : Nat := 0x100000000

abbrev Bytes := Array UInt8

namespace Bytes

/-- The number that `bytes` stand for, low byte first. -/
def number : List UInt8 → Nat
  | [] => 0
  | b :: bytes => b.toNat + 256 * number bytes

/-- The four bytes of a word, low byte first. -/
def ofWord (w : UInt32) : Bytes :=
  #[w.toUInt8, (w >>> 8).toUInt8, (w >>> 16).toUInt8, (w >>> 24).toUInt8]

def ofHalf (w : UInt16) : Bytes :=
  #[w.toUInt8, (w >>> 8).toUInt8]

def wordAt (bytes : Bytes) (offset : Nat) : UInt32 :=
  UInt32.ofNat (number (bytes.extract offset (offset + 4)).toList)

def halfAt (bytes : Bytes) (offset : Nat) : UInt16 :=
  UInt16.ofNat (number (bytes.extract offset (offset + 2)).toList)

/-- The words of a buffer whose length is a multiple of four; bytes past the last whole word are
left out. -/
def words (bytes : Bytes) : List UInt32 :=
  (List.range (bytes.size / 4)).map fun i => bytes.wordAt (4 * i)

@[simp] theorem size_ofWord (w : UInt32) : (ofWord w).size = 4 := rfl

@[simp] theorem size_ofHalf (w : UInt16) : (ofHalf w).size = 2 := rfl

/-- A word is the number its four bytes stand for. -/
theorem number_ofWord (w : UInt32) : UInt32.ofNat (number (ofWord w).toList) = w := by
  apply UInt32.toNat_inj.1
  have h := w.toNat_lt
  simp only [ofWord, number, UInt32.toNat_ofNat', UInt32.toNat_toUInt8, UInt32.toNat_shiftRight,
    Nat.shiftRight_eq_div_pow, UInt32.toNat_ofNat, Nat.reducePow, Nat.reduceMod]
  omega

/-- `bytes` with the bytes of `new` written from `offset` on; what would fall behind the end is
left out. -/
def overwrite (bytes : Bytes) (offset : Nat) (new : Bytes) : Bytes :=
  bytes.mapIdx fun i b =>
    if offset ≤ i then (new[i - offset]?).getD b else b

@[simp] theorem size_overwrite (bytes : Bytes) (offset : Nat) (new : Bytes) :
    (overwrite bytes offset new).size = bytes.size := by
  simp [overwrite]

/-- Inside the written range a byte is the new one, outside it the old one. -/
theorem getElem?_overwrite (bytes : Bytes) (offset : Nat) (new : Bytes) (i : Nat) :
    (overwrite bytes offset new)[i]? =
      (bytes[i]?).map fun b => if offset ≤ i then (new[i - offset]?).getD b else b := by
  simp [overwrite]

end Bytes
end ShaderBytecode
