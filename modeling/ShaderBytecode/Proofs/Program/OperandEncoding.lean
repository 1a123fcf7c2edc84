import ShaderBytecode.Proofs.Program.OperandToken

/-!
# Writing operands

The words of an operand, laid out as the decoder expects them, and the law that decoding inverts the
writing. An operand is a tree, and so is what is written of it:

    operand  ::=  first word, extension?, index*, literal*
    index    ::=  number words, operand?

`Operand.Canonical` says that a tree has this layout: the first words are packed from what the
operands say, and indices, literals and extensions are as these announce.

Not every tree can come from words: a literal in a register file that has none is a tree, too. The
words that a canonical operand is written to are read back as this operand, and nothing is said
about others.
-/

namespace ShaderBytecode

open TokenRead

/-! ### Indices and literals

An index has up to two words and perhaps an operand. The representation tells which of these are
there, and stands in the first word of the operand that the index belongs to. -/

namespace IndexRepresentation

/-- The number of words that hold the number part of an index. -/
def valueWords : IndexRepresentation → Nat
  | relative => 0
  | immediate32 | immediate32PlusRelative => 1
  | immediate64 | immediate64PlusRelative => 2

/-- A register is part of the index. -/
def hasBase : IndexRepresentation → Bool
  | immediate32 | immediate64 => false
  | relative | immediate32PlusRelative | immediate64PlusRelative => true

end IndexRepresentation

/-- The parts of an index are those that its representation asks for, and the number fits. -/
structure Index.Shaped (i : Index) : Prop where
  value_lt : i.value.toNat < 1 <<< (32 * i.representation.valueWords)
  isSome_base : i.base.isSome = i.representation.hasBase

instance (i : Index) : Decidable i.Shaped :=
  decidable_of_iff (i.value.toNat < 1 <<< (32 * i.representation.valueWords) ∧
      i.base.isSome = i.representation.hasBase)
    ⟨fun ⟨h₁, h₂⟩ => ⟨h₁, h₂⟩, fun ⟨h₁, h₂⟩ => ⟨h₁, h₂⟩⟩

/-- The words of literal values. -/
def Literals.encode : Literals → List UInt32
  | bits32 values => values
  | bits64 values => values.flatMap (Token.lowWords 2)

/-- The literal values are those that a file and a component count ask for. -/
def Literals.Shaped (file : RegisterFile) (components : Components) : Option Literals → Prop
  | none => file ≠ .immediate32 ∧ file ≠ .immediate64
  | some (.bits32 values) =>
    file = .immediate32 ∧ values.length = Operand.literalCount components
  | some (.bits64 values) =>
    file = .immediate64 ∧ values.length = Operand.literalCount components

instance (file : RegisterFile) (components : Components) :
    (literals : Option Literals) → Decidable (Literals.Shaped file components literals)
  | none => inferInstanceAs (Decidable (_ ∧ _))
  | some (.bits32 _) => inferInstanceAs (Decidable (_ ∧ _))
  | some (.bits64 _) => inferInstanceAs (Decidable (_ ∧ _))

namespace OperandHead

/-- What extensions add to the operand. -/
def extension (head : OperandHead) : Operand.Extension :=
  ⟨head.modifier, head.minPrecision, head.nonUniform⟩

/-- The extension behind the first word, if that announces one. -/
def extensionWords (head : OperandHead) : List UInt32 :=
  if Token.isExtended head.token then [head.extension.word] else []

end OperandHead

mutual

/-- The words of an operand. -/
def Operand.encode : Operand → List UInt32
  | .mk head indices literals =>
    head.token :: (head.extensionWords ++
      (indices.encode ++ (literals.map Literals.encode).getD []))

/-- The words of indices: of each the number part, and then the operand in it. -/
def Indices.encode : Indices → List UInt32
  | .nil => []
  | .fixed representation value rest =>
    Token.lowWords representation.valueWords value ++ rest.encode
  | .relative representation value base rest =>
    Token.lowWords representation.valueWords value ++ base.encode ++ rest.encode

end

mutual

/-- The number of levels of operands within an operand. -/
def Operand.nesting : Operand → Nat
  | .mk _ indices _ => indices.nesting

/-- The number of levels of operands within indices. -/
def Indices.nesting : Indices → Nat
  | .nil => 0
  | .fixed _ _ rest => rest.nesting
  | .relative _ _ base rest => max (base.nesting + 1) rest.nesting

end

namespace Operand

/-- The first word of an operand is packed from what the operand says, and its indices, literals and
extension are as the first word announces. -/
structure Packed (o : Operand) : Prop where
  length_indices : o.indices.length ≤ 3
  indices_shaped : ∀ i ∈ o.indices, i.Shaped
  literals_shaped : Literals.Shaped o.file o.components o.literals
  token : o.head.token = firstWord o.components o.file (o.indices.map (·.representation))
    (Token.isExtended o.head.token)
  extension : Token.isExtended o.head.token = false → o.head.extension = .none

/-- An operand in the documented layout, down to the operands within its indices. -/
def Canonical (o : Operand) : Prop := ∀ q ∈ o.preorder, q.Packed

instance (o : Operand) : Decidable o.Packed :=
  decidable_of_iff (o.indices.length ≤ 3 ∧ (∀ i ∈ o.indices, i.Shaped) ∧
      Literals.Shaped o.file o.components o.literals ∧
      o.head.token = firstWord o.components o.file (o.indices.map (·.representation))
        (Token.isExtended o.head.token) ∧
      (Token.isExtended o.head.token = false → o.head.extension = .none))
    ⟨fun ⟨h₁, h₂, h₃, h₄, h₅⟩ => ⟨h₁, h₂, h₃, h₄, h₅⟩,
      fun ⟨h₁, h₂, h₃, h₄, h₅⟩ => ⟨h₁, h₂, h₃, h₄, h₅⟩⟩

instance (o : Operand) : Decidable o.Canonical :=
  inferInstanceAs (Decidable (∀ q ∈ o.preorder, q.Packed))

namespace Packed

variable {o : Operand}

/-- The components are read back from the first word. -/
theorem componentsOf_token (h : o.Packed) : componentsOf o.head.token = .ok o.components := by
  rw [h.token, componentsOf_firstWord]

/-- So is the file. -/
theorem fileOf_token (h : o.Packed) : fileOf o.head.token = .ok o.file := by
  rw [h.token, fileOf_firstWord]

/-- So is the number of indices. -/
theorem dimension_token (h : o.Packed) : Token.bits 20 2 o.head.token = .ok o.indices.length := by
  have hlength : (o.indices.map (·.representation)).length = o.indices.length :=
    List.length_map ..
  rw [h.token, dimension_firstWord _ _ _ (hlength ▸ h.length_indices), hlength]

/-- So is the representation of each index. -/
theorem representationOf_token (h : o.Packed) {slot : Nat} {i : Index}
    (hi : o.indices[slot]? = some i) :
    representationOf o.head.token slot = .ok i.representation := by
  have hslot : slot < o.indices.length := (List.getElem?_eq_some_iff.1 hi).1
  have hr : (o.indices.map (·.representation))[slot]? = some i.representation := by
    rw [List.getElem?_map, hi]
    rfl
  rw [h.token, representationOf_firstWord _ _ _ hr (Nat.lt_of_lt_of_le hslot h.length_indices)]

/-- An extension is read back, or none if none is announced. -/
theorem reads_extensions (h : o.Packed) :
    Reads (extensions o.head.token) o.head.extensionWords o.head.extension := by
  unfold OperandHead.extensionWords
  split
  · next hext => exact reads_extensions_word hext _
  · next hext =>
    have hplain := Bool.not_eq_true _ ▸ hext
    rw [h.extension hplain]
    exact reads_extensions_nil hplain

end Packed

/-- An index without an operand is read back from its number. -/
theorem reads_index_fixed (nested : TokenRead Operand) {r : IndexRepresentation} {n : UInt64}
    (h : Index.Shaped ⟨r, n, none⟩) :
    Reads (index nested r) (Token.lowWords r.valueWords n) ⟨r, n, none⟩ := by
  obtain ⟨hlt, hbase⟩ := h
  cases r with
  | immediate32 =>
    have hread : Reads (index nested .immediate32) [n.toUInt32]
        ⟨.immediate32, n.toUInt32.toUInt64, none⟩ := (reads_word n.toUInt32).map _
    rwa [Token.toUInt64_toUInt32 hlt] at hread
  | immediate64 => exact (reads_wide n).map _
  | relative => cases hbase
  | immediate32PlusRelative => cases hbase
  | immediate64PlusRelative => cases hbase

/-- An index with an operand is read back from its number and the words of the operand. -/
theorem reads_index_relative {nested : TokenRead Operand} {r : IndexRepresentation} {n : UInt64}
    {base : Operand} {words : List UInt32} (h : Index.Shaped ⟨r, n, some base⟩)
    (hnested : Reads nested words base) :
    Reads (index nested r) (Token.lowWords r.valueWords n ++ words) ⟨r, n, some base⟩ := by
  obtain ⟨hlt, hbase⟩ := h
  cases r with
  | immediate32 => cases hbase
  | immediate64 => cases hbase
  | relative =>
    -- without number words the number is zero
    have hzero : n = 0 := UInt64.toNat.inj (Nat.lt_one_iff.1 hlt)
    subst hzero
    exact hnested.map _
  | immediate32PlusRelative =>
    have hread : Reads (index nested .immediate32PlusRelative) ([n.toUInt32] ++ words)
        ⟨.immediate32PlusRelative, n.toUInt32.toUInt64, some base⟩ :=
      (reads_word n.toUInt32).bind (hnested.map _)
    rwa [Token.toUInt64_toUInt32 hlt] at hread
  | immediate64PlusRelative => exact (reads_wide n).bind (hnested.map _)

/-- Literal values are read back. -/
theorem reads_literalValues {file : RegisterFile} {components : Components}
    {literals : Option Literals} (h : Literals.Shaped file components literals) :
    Reads (literalValues file components) ((literals.map Literals.encode).getD []) literals := by
  match literals, h with
  -- no literals, literals of one word, and literals of two
  | none, ⟨h32, h64⟩ =>
    unfold literalValues
    split
    · exact absurd rfl h32
    · exact absurd rfl h64
    · exact reads_pure none
  | some (.bits32 values), ⟨hfile, hlength⟩ =>
    subst hfile
    rw [literalValues, ← hlength]
    exact (reads_words values).map _
  | some (.bits64 values), ⟨hfile, hlength⟩ =>
    subst hfile
    rw [literalValues, ← hlength]
    exact (reads_wides values).map _

end Operand

/-! ### Decoding what was written

The first word of an operand tells how each index is represented, by slot. Indices are a list, so
the slots are counted along with them. -/

/-- What a first word says of indices, the first of which is at `slot`. -/
def Indices.InSlots (is : Indices) (token : UInt32) (slot : Nat) : Prop :=
  ∀ k i, is.toList[k]? = some i →
    Operand.representationOf token (slot + k) = .ok i.representation

/-- The first word of a canonical operand says of each slot what stands there. -/
theorem Operand.Packed.inSlots {head : OperandHead} {indices : Indices}
    {literals : Option Literals} (h : (Operand.mk head indices literals).Packed) :
    indices.InSlots head.token 0 := by
  intro k i hi
  rw [Nat.zero_add]
  exact h.representationOf_token hi

/-- What stands at a slot, and at the slots behind it. -/
theorem Indices.inSlots_cons (i : Index) (rest : Indices) {token : UInt32} {slot : Nat}
    (h : (cons i rest).InSlots token slot) :
    Operand.representationOf token slot = .ok i.representation ∧
      rest.InSlots token (slot + 1) := by
  unfold InSlots at h
  rw [toList_cons] at h
  refine ⟨h 0 i rfl, ?_⟩
  intro k j hj
  rw [Nat.add_right_comm]
  exact h (k + 1) j hj

-- By induction on the tree. The levels that are left bound the nesting of the operand, and go down
-- by one for the operands within its indices.
mutual

/-- **Decoding inverts writing**, for an operand with no more levels than are accepted. -/
theorem Operand.reads_decodeNested : ∀ (o : Operand) {levels : Nat}, o.Canonical →
    o.nesting < levels → Reads (Operand.decodeNested levels) o.encode o
  | .mk head indices literals, levels + 1, h, hlevels => by
    have hpacked : (Operand.mk head indices literals).Packed := h _ List.mem_cons_self
    have hindices : Reads
        (Operand.indicesFrom (Operand.decodeNested levels) head.token 0 indices.toList.length)
        indices.encode indices := by
      apply indices.reads_indicesFrom
      · intro q hq
        exact h q (List.mem_cons_of_mem _ hq)
      · exact hpacked.indices_shaped
      · exact hpacked.inSlots
      · exact Nat.le_of_lt_succ hlevels
    have hliterals := Operand.reads_literalValues hpacked.literals_shaped
    refine (reads_word head.token).bind ?_
    -- the first word is taken apart without reading on
    refine (reads_lift hpacked.componentsOf_token).bind ?_
    refine (reads_lift hpacked.fileOf_token).bind ?_
    refine (reads_lift hpacked.dimension_token).bind ?_
    exact hpacked.reads_extensions.bind (hindices.bind (hliterals.map _))

/-- Indices are read one after the other, each in the representation that its slot gives. -/
theorem Indices.reads_indicesFrom : ∀ (is : Indices) {levels slot : Nat} {token : UInt32},
    (∀ q ∈ is.preorder, q.Packed) → (∀ i ∈ is.toList, i.Shaped) → is.InSlots token slot →
    is.nesting ≤ levels →
    Reads (Operand.indicesFrom (Operand.decodeNested levels) token slot is.toList.length)
      is.encode is
  | .nil, _, _, _, _, _, _, _ => reads_pure _
  | .fixed r n rest, levels, slot, token, hpacked, hshaped, hslots, hlevels => by
    obtain ⟨hslot, hslots'⟩ := Indices.inSlots_cons ⟨r, n, none⟩ rest hslots
    have hindex := Operand.reads_index_fixed (Operand.decodeNested levels)
      (hshaped _ List.mem_cons_self)
    have hrest := rest.reads_indicesFrom hpacked
      (fun i hi => hshaped i (List.mem_cons_of_mem _ hi)) hslots' hlevels
    exact (reads_lift hslot).bind (hindex.bind (hrest.map _))
  | .relative r n base rest, levels, slot, token, hpacked, hshaped, hslots, hlevels => by
    obtain ⟨hslot, hslots'⟩ := Indices.inSlots_cons ⟨r, n, some base⟩ rest hslots
    obtain ⟨hbaseLevels, hrestLevels⟩ := Nat.max_le.1 hlevels
    have hbase : Reads (Operand.decodeNested levels) base.encode base := by
      apply base.reads_decodeNested
      · intro q hq
        exact hpacked q (List.mem_append_left _ hq)
      · exact hbaseLevels
    have hindex := Operand.reads_index_relative (hshaped _ List.mem_cons_self) hbase
    have hrest := rest.reads_indicesFrom (fun q hq => hpacked q (List.mem_append_right _ hq))
      (fun i hi => hshaped i (List.mem_cons_of_mem _ hi)) hslots' hrestLevels
    exact (reads_lift hslot).bind (hindex.bind (hrest.map _))

end

/-- An operand of an instruction is read back from its words. -/
theorem Operand.reads_decode {o : Operand} (h : o.Canonical)
    (hlevels : o.nesting ≤ Operand.maxRelativeDepth) : Reads Operand.decode o.encode o :=
  o.reads_decodeNested h (Nat.lt_succ_of_le hlevels)

end ShaderBytecode
