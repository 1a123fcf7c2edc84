import ShaderBytecode.Program.Token

/-!
# Laying out words

A word is packed from a list of fields, the lowest first, and `Token.bits` reads a field back from
where the widths of the fields below it end:

    fields   f₀        f₁        f₂
    bits     0 … w₀-1  w₀ …      w₀+w₁ …

Words stand one behind the other. `TokenRead.Reads` says of a reading action that it takes certain
words off the front and leaves whatever is behind them; the words of a sequence of actions are those
of its parts, one after the other.

So that an encoder and a decoder can be compared, both are taken apart in the same way: a word field
by field and a text of words action by action. The comparison of a layout is then a matter of adding
up widths, which evaluation does.
-/

namespace ShaderBytecode

/-! ### Fields of a word

A list of fields is the packing of one number in a mixed base. Reading a field is a division by the
fields below and a remainder, and nothing of the fields above is left. -/

/-- A field of a word, with what it holds. -/
structure BitField where
  width : Nat
  value : BitVec width

namespace BitField

/-- A field of one bit. -/
def flag (b : Bool) : BitField := ⟨1, .ofBool b⟩

/-- The number of bits that fields take together. -/
def bitCount : List BitField → Nat
  | [] => 0
  | f :: fs => f.width + bitCount fs

/-- The number that fields make up, the first being the lowest. -/
def pack : List BitField → Nat
  | [] => 0
  | f :: fs => f.value.toNat + pack fs <<< f.width

/-- The widths of fields add up. -/
theorem bitCount_append (fs gs : List BitField) :
    bitCount (fs ++ gs) = bitCount fs + bitCount gs := by
  induction fs with
  | nil => rw [List.nil_append, bitCount, Nat.zero_add]
  | cons f fs ih => rw [List.cons_append, bitCount, bitCount, ih, Nat.add_assoc]

/-- Fields make up a number that fits their widths. -/
theorem pack_lt (fs : List BitField) : pack fs < 1 <<< bitCount fs := by
  induction fs with
  | nil => exact Nat.one_pos
  | cons f fs ih =>
    have hv := f.value.isLt
    rw [Nat.one_shiftLeft] at ih ⊢
    have hmul := Nat.mul_le_mul_left (1 <<< f.width) (Nat.succ_le_of_lt ih)
    rw [Nat.one_shiftLeft, ← Nat.pow_add, Nat.mul_succ] at hmul
    rw [pack, bitCount, Nat.shiftLeft_eq, Nat.mul_comm (pack fs)]
    omega

/-- A field stands where the widths of the fields below it end. -/
theorem pack_shiftRight_mod {fs : List BitField} {i : Nat} {f : BitField} (h : fs[i]? = some f) :
    pack fs >>> bitCount (fs.take i) % 1 <<< f.width = f.value.toNat := by
  induction fs generalizing i with
  | nil => cases h
  | cons g fs ih =>
    cases i with
    | zero =>
      cases h
      rw [List.take_zero, bitCount, Nat.shiftRight_zero, pack, Nat.shiftLeft_eq,
        Nat.one_shiftLeft, Nat.add_mul_mod_self_right, Nat.mod_eq_of_lt f.value.isLt]
    | succ i =>
      -- the fields above the first are what is left when the first is shifted out
      have hrest : pack (g :: fs) >>> g.width = pack fs := by
        rw [pack, Nat.shiftLeft_eq, Nat.shiftRight_eq_div_pow,
          Nat.add_mul_div_right _ _ (Nat.two_pow_pos _), Nat.div_eq_of_lt g.value.isLt,
          Nat.zero_add]
      rw [List.take_succ_cons, bitCount, Nat.shiftRight_add, hrest]
      exact ih h

/-- A field ends within the widths of all fields. -/
theorem bitCount_take_add_le {fs : List BitField} {i : Nat} {f : BitField} (h : fs[i]? = some f) :
    bitCount (fs.take i) + f.width ≤ bitCount fs := by
  induction fs generalizing i with
  | nil => cases h
  | cons g fs ih =>
    cases i with
    | zero =>
      cases h
      rw [List.take_zero, bitCount, bitCount, Nat.zero_add]
      exact Nat.le_add_right _ _
    | succ i =>
      rw [List.take_succ_cons, bitCount, bitCount, Nat.add_assoc]
      exact Nat.add_le_add_left (ih h) _

end BitField

namespace Token

/-- The word that fields make up. -/
def pack (fs : List BitField) : UInt32 := UInt32.ofNat (BitField.pack fs)

variable {fs : List BitField}

/-- Fields of a whole word make up its number. -/
theorem toNat_pack (hfull : BitField.bitCount fs = 32) : (pack fs).toNat = BitField.pack fs := by
  have hlt : BitField.pack fs < 1 <<< 32 := hfull ▸ BitField.pack_lt fs
  rw [pack, UInt32.toNat_ofNat']
  exact Nat.mod_eq_of_lt hlt

/-- **Each field of a packed word is read back.** -/
theorem bits_pack (hfull : BitField.bitCount fs = 32) (i : Nat) {shift width n : Nat}
    (hshift : BitField.bitCount (fs.take i) = shift)
    (h : fs[i]?.map (fun f => (f.width, f.value.toNat)) = some (width, n)) (hpos : 0 < width) :
    bits shift width (pack fs) = .ok n := by
  obtain ⟨f, hf, heq⟩ := Option.map_eq_some_iff.1 h
  cases heq
  have hfits := BitField.bitCount_take_add_le hf
  rw [← hshift, bits_eq_ok ⟨hpos, hfull ▸ hfits⟩, toNat_pack hfull, BitField.pack_shiftRight_mod hf]

/-- A flag is read back. -/
theorem bit_pack (hfull : BitField.bitCount fs = 32) (i : Nat) {shift : Nat} {b : Bool}
    (hshift : BitField.bitCount (fs.take i) = shift) (h : fs[i]? = some (.flag b)) :
    bit shift (pack fs) = .ok b := by
  have hbits : bits shift 1 (pack fs) = .ok (BitVec.ofBool b).toNat :=
    bits_pack hfull i hshift (by rw [h]; rfl) Nat.one_pos
  rw [bit, hbits]
  cases b <;> rfl

/-- The flag in the highest bit says that an extension follows. -/
theorem isExtended_pack (hfull : BitField.bitCount fs = 32) (i : Nat) {b : Bool}
    (hshift : BitField.bitCount (fs.take i) = 31) (h : fs[i]? = some (.flag b)) :
    isExtended (pack fs) = b := by
  have hfield := BitField.pack_shiftRight_mod h
  rw [hshift] at hfield
  rw [isExtended, Nat.testBit_eq_decide_div_mod_eq, ← Nat.shiftRight_eq_div_pow,
    toNat_pack hfull]
  show decide (BitField.pack fs >>> 31 % 1 <<< (BitField.flag b).width = 1) = b
  rw [hfield]
  cases b <;> rfl

end Token

/-! ### Words one behind the other

An action that reads words must not look at the words behind them, and must leave them as they are.
Both are part of `Reads`, which is therefore closed under sequences. -/

namespace TokenRead

/-- The action uses up `words` and gives `a`, whatever stands behind them. -/
def Reads (action : TokenRead α) (words : List UInt32) (a : α) : Prop :=
  ∀ rest position, action ⟨words ++ rest, position⟩ = .ok (a, ⟨rest, position + words.length⟩)

/-- A result reads no words. -/
theorem reads_pure (a : α) : Reads (pure a : TokenRead α) [] a := fun _ _ => rfl

/-- Taking a word apart reads no words. -/
theorem reads_lift {x : Except DecodeError α} {a : α} (h : x = .ok a) :
    Reads (liftM x : TokenRead α) [] a := by
  subst h
  exact fun _ _ => rfl

/-- A sequence reads the words of both parts. -/
theorem Reads.bind {action : TokenRead α} {next : α → TokenRead β} {words words' : List UInt32}
    {a : α} {b : β} (h : Reads action words a) (h' : Reads (next a) words' b) :
    Reads (action >>= next) (words ++ words') b := by
  intro rest position
  simp only [Bind.bind, StateT.bind, Except.bind, List.append_assoc, h (words' ++ rest) position]
  rw [h' rest (position + words.length), List.length_append, Nat.add_assoc]

/-- A change to the result reads no more words. -/
theorem Reads.map {action : TokenRead α} {words : List UInt32} {a : α} (h : Reads action words a)
    (f : α → β) : Reads (do return f (← action)) words (f a) := by
  have hbind : Reads (do return f (← action)) (words ++ []) (f a) := h.bind (reads_pure (f a))
  rwa [List.append_nil] at hbind

/-- A word is read. -/
theorem reads_word (w : UInt32) : Reads word [w] w := fun _ _ => rfl

end TokenRead

namespace Token

/-- The lowest `count` words of a number, the low one first. -/
def lowWords : (count : Nat) → UInt64 → List UInt32
  | 0, _ => []
  | count + 1, n => n.toUInt32 :: lowWords count (n >>> 32)

/-- A number that fits a word is kept by it. -/
theorem toUInt64_toUInt32 {n : UInt64} (h : n.toNat < 1 <<< 32) : n.toUInt32.toUInt64 = n := by
  apply UInt64.toNat.inj
  rw [UInt32.toNat_toUInt64, UInt64.toNat_toUInt32]
  exact Nat.mod_eq_of_lt h

/-- A number is its low word and its high word. -/
theorem low_add_high (n : UInt64) :
    n.toUInt32.toUInt64 + (n >>> 32).toUInt32.toUInt64 <<< 32 = n := by
  apply UInt64.toNat.inj
  have hn := n.toNat_lt
  simp only [UInt64.toNat_add, UInt32.toNat_toUInt64, UInt64.toNat_toUInt32,
    UInt64.toNat_shiftLeft, UInt64.toNat_shiftRight, UInt64.reduceToNat, Nat.reduceMod,
    Nat.shiftLeft_eq, Nat.shiftRight_eq_div_pow]
  omega

end Token

namespace TokenRead

/-- A number of two words is read with its low word first. -/
theorem reads_wide (n : UInt64) : Reads wide (Token.lowWords 2 n) n := by
  have hread : Reads wide (Token.lowWords 2 n)
      (n.toUInt32.toUInt64 + (n >>> 32).toUInt32.toUInt64 <<< 32) :=
    (reads_word n.toUInt32).bind ((reads_word (n >>> 32).toUInt32).map _)
  rwa [Token.low_add_high] at hread

/-- Words are read in their order. -/
theorem reads_words : ∀ l : List UInt32, Reads (words l.length) l l
  | [] => reads_pure []
  | w :: l => (reads_word w).bind ((reads_words l).map (w :: ·))

/-- Numbers of two words are read in their order. -/
theorem reads_wides : ∀ l : List UInt64, Reads (wides l.length) (l.flatMap (Token.lowWords 2)) l
  | [] => reads_pure []
  | n :: l => (reads_wide n).bind ((reads_wides l).map (n :: ·))

end TokenRead

end ShaderBytecode
