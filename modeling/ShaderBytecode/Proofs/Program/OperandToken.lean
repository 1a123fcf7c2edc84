import ShaderBytecode.Program.OperandDecode
import ShaderBytecode.Proofs.Program.Layout

/-!
# First words and extensions of operands

The bit fields that the decoder's table lists, packed into a word, and what each reading of the
first word gives of it. The twelve bits of the component count and the selection are laid out
differently for every count and selection; the bits above them are the same for all.

What is read of a word depends on where its fields stand, which evaluation can tell as long as the
widths are numbers. So the fields are lists whose widths are known, and their values are not.
-/

namespace ShaderBytecode

/-! ### The first word

Indices that are not there leave zeros in their slots, as if they were small numbers. Whether there
is an index is told by the number of indices. -/

/-- A component as a field. -/
def Lane.field (lane : Lane) : BitField := ⟨2, .ofFin lane⟩

/-- The number of a component is kept. -/
theorem Lane.ofNat_val (lane : Lane) : Lane.ofNat lane.val = lane :=
  Fin.ext (Nat.mod_eq_of_lt lane.isLt)

/-- The fields of the component count and the selection: the lowest twelve bits. -/
def Components.fields : Components → List BitField
  | zero => [⟨2, 0⟩, ⟨10, 0⟩]
  | one => [⟨2, 1⟩, ⟨10, 0⟩]
  | four (.mask lanes) => [⟨2, 2⟩, ⟨2, 0⟩, ⟨4, lanes⟩, ⟨4, 0⟩]
  | four (.swizzle x y z w) => [⟨2, 2⟩, ⟨2, 1⟩, x.field, y.field, z.field, w.field]
  | four (.single component) => [⟨2, 2⟩, ⟨2, 2⟩, component.field, ⟨6, 0⟩]
  | many => [⟨2, 3⟩, ⟨10, 0⟩]

/-- The components take twelve bits, whatever they are. -/
theorem Components.bitCount_fields (components : Components) :
    BitField.bitCount components.fields = 12 := by
  match components with
  | .zero | .one | .many | .four (.mask _) | .four (.swizzle ..) | .four (.single _) => rfl

namespace IndexRepresentation

/-- The code of a representation. -/
def code : IndexRepresentation → BitVec 3
  | immediate32 => 0
  | immediate64 => 1
  | relative => 2
  | immediate32PlusRelative => 3
  | immediate64PlusRelative => 4

/-- The code of a representation is its place in the decoder's table. -/
theorem getElem?_all_code (r : IndexRepresentation) : all[r.code.toNat]? = some r := by
  cases r <;> rfl

/-- The field of the index at a slot; a slot without an index is zero. -/
def slotField (representations : List IndexRepresentation) (slot : Nat) : BitField :=
  ⟨3, (representations[slot]?.map code).getD 0⟩

end IndexRepresentation

namespace OperandModifier

/-- The code of a modifier. -/
def code : OperandModifier → BitVec 8
  | none => 0
  | neg => 1
  | abs => 2
  | absNeg => 3

/-- The code of a modifier is its place in the decoder's table. -/
theorem getElem?_all_code (m : OperandModifier) : all[m.code.toNat]? = some m := by
  cases m <;> rfl

end OperandModifier

namespace Operand

open TokenRead

/-- The fields of the first word above those of the components. -/
def upperFields (file : RegisterFile) (representations : List IndexRepresentation)
    (extended : Bool) : List BitField :=
  [⟨8, .ofNat 8 file.number⟩, ⟨2, .ofNat 2 representations.length⟩,
    IndexRepresentation.slotField representations 0,
    IndexRepresentation.slotField representations 1,
    IndexRepresentation.slotField representations 2, .flag extended]

/-- The first word of an operand. -/
def firstWord (components : Components) (file : RegisterFile)
    (representations : List IndexRepresentation) (extended : Bool) : UInt32 :=
  Token.pack (components.fields ++ upperFields file representations extended)

section

variable (components : Components) (file : RegisterFile)
  (representations : List IndexRepresentation) (extended : Bool)

/-- The fields make up a word. -/
theorem bitCount_firstWord :
    BitField.bitCount (components.fields ++ upperFields file representations extended) = 32 := by
  rw [BitField.bitCount_append, components.bitCount_fields]
  rfl

variable {components file representations extended} in
/-- The fields of the components stand lowest. -/
theorem bits_firstWord_lower (i : Nat) {shift width n : Nat}
    (hshift : BitField.bitCount (components.fields.take i) = shift)
    (h : components.fields[i]?.map (fun f => (f.width, f.value.toNat)) = some (width, n))
    (hpos : 0 < width) :
    Token.bits shift width (firstWord components file representations extended) = .ok n := by
  have hi : i < components.fields.length := by
    obtain ⟨f, hf, -⟩ := Option.map_eq_some_iff.1 h
    exact (List.getElem?_eq_some_iff.1 hf).1
  refine Token.bits_pack (bitCount_firstWord ..) i ?_ ?_ hpos
  · rw [List.take_append_of_le_length (Nat.le_of_lt hi), hshift]
  · rw [List.getElem?_append_left hi, h]

variable {file representations extended} in
/-- The fields above those of the components do not depend on the components. -/
theorem bits_firstWord_upper (i : Nat) {shift width n : Nat}
    (hshift : 12 + BitField.bitCount ((upperFields file representations extended).take i) = shift)
    (h : (upperFields file representations extended)[i]?.map (fun f => (f.width, f.value.toNat))
      = some (width, n)) (hpos : 0 < width) :
    Token.bits shift width (firstWord components file representations extended) = .ok n := by
  refine Token.bits_pack (bitCount_firstWord ..) (components.fields.length + i) ?_ ?_ hpos
  · rw [List.take_length_add_append, BitField.bitCount_append, components.bitCount_fields, hshift]
  · rw [List.getElem?_append_right (Nat.le_add_right _ _), Nat.add_sub_cancel_left, h]

/-- The components are read back. -/
theorem componentsOf_firstWord :
    componentsOf (firstWord components file representations extended) = .ok components := by
  generalize hword : firstWord components file representations extended = word
  -- the count is in the lowest bits, the mode of four components behind it, then the lanes
  cases components with
  | zero =>
    have hcount : Token.bits 0 2 word = .ok 0 := hword ▸ bits_firstWord_lower 0 rfl rfl (by decide)
    rw [componentsOf, hcount]
    rfl
  | one =>
    have hcount : Token.bits 0 2 word = .ok 1 := hword ▸ bits_firstWord_lower 0 rfl rfl (by decide)
    rw [componentsOf, hcount]
    rfl
  | four selection =>
    have hcount : Token.bits 0 2 word = .ok 2 := by
      cases selection <;> exact hword ▸ bits_firstWord_lower 0 rfl rfl (by decide)
    cases selection with
    | mask lanes =>
      have hmode : Token.bits 2 2 word = .ok 0 := hword ▸ bits_firstWord_lower 1 rfl rfl (by decide)
      have hlanes : Token.bits 4 4 word = .ok lanes.toNat :=
        hword ▸ bits_firstWord_lower 2 rfl rfl (by decide)
      simp only [componentsOf, hcount, hmode, hlanes, Bind.bind, Except.bind, BitVec.ofNat_toNat,
        BitVec.setWidth_eq]
      rfl
    | swizzle x y z w =>
      have hmode : Token.bits 2 2 word = .ok 1 := hword ▸ bits_firstWord_lower 1 rfl rfl (by decide)
      have hx : Token.bits 4 2 word = .ok x.val :=
        hword ▸ bits_firstWord_lower 2 rfl rfl (by decide)
      have hy : Token.bits 6 2 word = .ok y.val :=
        hword ▸ bits_firstWord_lower 3 rfl rfl (by decide)
      have hz : Token.bits 8 2 word = .ok z.val :=
        hword ▸ bits_firstWord_lower 4 rfl rfl (by decide)
      have hw : Token.bits 10 2 word = .ok w.val :=
        hword ▸ bits_firstWord_lower 5 rfl rfl (by decide)
      simp only [componentsOf, hcount, hmode, hx, hy, hz, hw, Bind.bind, Except.bind,
        Lane.ofNat_val]
      rfl
    | single component =>
      have hmode : Token.bits 2 2 word = .ok 2 := hword ▸ bits_firstWord_lower 1 rfl rfl (by decide)
      have hcomponent : Token.bits 4 2 word = .ok component.val :=
        hword ▸ bits_firstWord_lower 2 rfl rfl (by decide)
      simp only [componentsOf, hcount, hmode, hcomponent, Bind.bind, Except.bind, Lane.ofNat_val]
      rfl
  | many =>
    have hcount : Token.bits 0 2 word = .ok 3 := hword ▸ bits_firstWord_lower 0 rfl rfl (by decide)
    rw [componentsOf, hcount]
    rfl

/-- The file is read back. -/
theorem fileOf_firstWord :
    fileOf (firstWord components file representations extended) = .ok file := by
  have hnumber : Token.bits 12 8 (firstWord components file representations extended)
      = .ok file.number :=
    bits_firstWord_upper components 0 rfl (by cases file <;> rfl) (by decide)
  simp only [fileOf, hnumber, Bind.bind, Except.bind, RegisterFile.ofNumber?_number]
  rfl

variable {representations} in
/-- The number of indices is read back. -/
theorem dimension_firstWord (h : representations.length ≤ 3) :
    Token.bits 20 2 (firstWord components file representations extended)
      = .ok representations.length := by
  have hvalue : (BitVec.ofNat 2 representations.length).toNat = representations.length :=
    Nat.mod_eq_of_lt (Nat.lt_succ_of_le h)
  exact bits_firstWord_upper components 1 rfl
    (congrArg (fun n => some (2, n)) hvalue) (by decide)

variable {representations} in
/-- The representation of the index at a slot is read back. -/
theorem representationOf_firstWord {slot : Nat} {r : IndexRepresentation}
    (h : representations[slot]? = some r) (hslot : slot < 3) :
    representationOf (firstWord components file representations extended) slot = .ok r := by
  have hfield : some ((IndexRepresentation.slotField representations slot).width,
      (IndexRepresentation.slotField representations slot).value.toNat)
        = some (3, r.code.toNat) := by
    rw [IndexRepresentation.slotField, h]
    rfl
  -- each of the three slots has three bits of its own
  have hcode : Token.bits (22 + 3 * slot) 3
      (firstWord components file representations extended) = .ok r.code.toNat := by
    match slot, hslot with
    | 0, _ => exact bits_firstWord_upper components 2 rfl hfield (by decide)
    | 1, _ => exact bits_firstWord_upper components 3 rfl hfield (by decide)
    | 2, _ => exact bits_firstWord_upper components 4 rfl hfield (by decide)
  simp only [representationOf, hcode, Bind.bind, Except.bind,
    IndexRepresentation.getElem?_all_code]
  rfl

end

/-! ### Extensions

One extension word is all that the decoder knows, so that a second one would only replace it. -/

/-- The fields of an extension word. -/
def Extension.fields (e : Extension) : List BitField :=
  [⟨6, 1⟩, ⟨8, e.modifier.code⟩, ⟨3, .ofNat 3 e.minPrecision.code.toNat⟩, .flag e.nonUniform,
    ⟨13, 0⟩, .flag false]

/-- The extension word that gives a modifier, a precision and whether an index may diverge. -/
def Extension.word (e : Extension) : UInt32 := Token.pack e.fields

/-- An extension word announces no other. -/
theorem isExtended_word (e : Extension) : Token.isExtended e.word = false :=
  Token.isExtended_pack rfl 5 rfl rfl

/-- An extension word says everything, so that nothing is left of an extension before it. -/
theorem next_word (e₀ e : Extension) : e₀.next e.word = .ok e := by
  have hkind : Token.bits 0 6 e.word = .ok 1 := Token.bits_pack rfl 0 rfl rfl (by decide)
  have hmodifier : Token.bits 6 8 e.word = .ok e.modifier.code.toNat :=
    Token.bits_pack rfl 1 rfl rfl (by decide)
  have hcode : (BitVec.ofNat 3 e.minPrecision.code.toNat).toNat = e.minPrecision.code.toNat := by
    cases e.minPrecision <;> rfl
  have hprecision : Token.bits 14 3 e.word = .ok e.minPrecision.code.toNat :=
    Token.bits_pack rfl 2 rfl (congrArg (fun n => some (3, n)) hcode) (by decide)
  have hnonUniform : Token.bit 17 e.word = .ok e.nonUniform := Token.bit_pack rfl 3 rfl rfl
  simp only [Extension.next, hkind, hmodifier, hprecision, hnonUniform, Bind.bind, Except.bind,
    modifierExtension, OperandModifier.getElem?_all_code, UInt32.ofNat_toNat,
    MinPrecision.ofCode_code]
  rfl

/-- An announced extension is read back. -/
theorem reads_extensions_word {token : UInt32} (h : Token.isExtended token = true)
    (e : Extension) : Reads (extensions token) [e.word] e := by
  intro rest position
  simp only [extensions, h, List.cons_append, List.nil_append, extensionsFrom, next_word,
    isExtended_word, Bind.bind, Except.bind]
  rfl

/-- Where none is announced there is none. -/
theorem reads_extensions_nil {token : UInt32} (h : Token.isExtended token = false) :
    Reads (extensions token) [] .none := by
  intro rest position
  simp only [extensions, h]
  rfl

end Operand
end ShaderBytecode
