import ShaderBytecode.Proofs.Glsl.Entries
import ShaderBytecode.Proofs.Glsl.RegisterDeclarations

/-!
# Plain rows are declared

A constant buffer that is read as plain rows needs an array of rows besides its block. Which slots
are read so is known only when the body has been lowered; the program may also declare buffers that
no definition covers.

    declared_rawBuffer : a slot has one block of rows at most, and one that is large enough if the
                         body reads its rows

The blocks of defined buffers are named by the definitions, and nothing keeps these from the names
of the blocks of rows: `not_declared_once_ownName` shows a buffer with such a name.

The trace of the body tells which slots are read by rows. A slot in the trace need not be named in
the body, as its row may stand in an operand that is not printed.
-/

namespace ShaderBytecode
namespace Glsl

/-! ### Names of blocks

The name of a block is made from its slot, and that of a defined block from a name in the container.
The first is told from other slots' names, since digits can be read back. -/

/-- The name of a uniform block. -/
def UniformBlockDeclaration.name? : UniformBlockDeclaration → Option String
  | block _ name _ => some name
  | empty _ => none

/-- The blocks of a name. -/
def blocksNamed (name : String) (blocks : List UniformBlockDeclaration) :
    List UniformBlockDeclaration :=
  blocks.filter fun b => b.name? == some name

/-- The name of the block of rows for a slot. -/
def rowsBlockName (slot : UInt32) : String := (Name.bufferRows slot).text ++ "_block"

theorem toString_injective {m n : Nat} (h : toString m = toString n) : m = n := by
  rw [Nat.toString_eq_ofList_toDigits, Nat.toString_eq_ofList_toDigits, String.ofList_inj] at h
  have hread := congrArg (Nat.ofDigitChars 10 · 0) h -- the digits are read back
  simpa only [Nat.ofDigitChars_ten_toDigits] using hread

theorem rowsBlockName_injective {s t : UInt32} (h : rowsBlockName s = rowsBlockName t) : s = t := by
  have htext : (Name.bufferRows s).text = (Name.bufferRows t).text :=
    (String.append_left_inj "_block").1 h
  have hdigits : toString s.toNat = toString t.toNat := (String.append_right_inj "cb").1 htext
  exact UInt32.toNat_inj.1 (toString_injective hdigits)

/-- The block of rows for a slot. -/
def rowsBlock (binding : Option Nat) (slot : UInt32) (count : Nat) : UniformBlockDeclaration :=
  .block binding (rowsBlockName slot) [⟨.vec4, (Name.bufferRows slot).text, some count, none⟩]

/-- The blocks of the buffers that are defined. -/
def definedBlocks (options : Options) (c : Container) : List UniformBlockDeclaration :=
  (c.resources.toList.flatMap (·.buffers)).filterMap (bufferBlock? options.bindings)

/-! ### Numbers of rows

Rows are counted up from bytes, and there is one at least. Of several that ask for a slot the first
is taken, so it matters that whoever asks for the rows of a buffer asks for all of them. -/

theorem one_le_rowsOfBuffer (b : Option ConstantBuffer) : 1 ≤ rowsOfBuffer b := by
  cases b with
  | none => decide
  | some b => exact Nat.le_max_right _ 1

theorem size_le_rowsOfBuffer (b : ConstantBuffer) :
    b.size.toNat ≤ ConstantBuffer.rowBytes * rowsOfBuffer (some b) := by
  unfold rowsOfBuffer ConstantBuffer.rowBytes
  dsimp only
  omega

/-- The slots for which rows are declared, before repetitions are left out. -/
def rowCandidates (ctx : Context) (declared : List (UInt32 × Nat)) (rawSlots : List UInt32) :
    List (UInt32 × Nat) :=
  declared.filter (fun d => (ctx.bufferAt? d.1).isNone)
    ++ rawSlots.map fun slot => (slot, rowsOfBuffer (ctx.bufferAt? slot))

section

variable {ctx : Context} {declared : List (UInt32 × Nat)} {rawSlots : List UInt32}

theorem enough_of_mem_rowCandidates (hdeclared : ∀ d ∈ declared, 1 ≤ d.2) :
    ∀ d ∈ rowCandidates ctx declared rawSlots, 1 ≤ d.2 ∧
      ∀ b ∈ ctx.bufferAt? d.1, b.size.toNat ≤ ConstantBuffer.rowBytes * d.2 := by
  intro d hd
  rcases List.mem_append.1 hd with hd | hd
  · -- a declared slot has no buffer
    obtain ⟨hd, hnone⟩ := List.mem_filter.1 hd
    rw [Option.isNone_iff_eq_none] at hnone
    refine ⟨hdeclared d hd, fun b hb => ?_⟩
    rw [hnone] at hb
    cases hb
  · -- a slot that is read gets the rows of its buffer
    obtain ⟨slot, -, rfl⟩ := List.mem_map.1 hd
    refine ⟨one_le_rowsOfBuffer _, fun b hb => ?_⟩
    rw [Option.mem_def.1 hb]
    exact size_le_rowsOfBuffer b

/-- Of all that ask for the rows of a slot the first one gets them. -/
theorem filter_rawBuffers (slot : UInt32) :
    (rawBuffers ctx declared rawSlots).filter (·.1 == slot)
      = ((rowCandidates ctx declared rawSlots).find? (·.1 == slot)).toList := by
  have hfirst : rawBuffers ctx declared rawSlots
      = (ascending ((rowCandidates ctx declared rawSlots).map fun d => d.1.toNat)).filterMap
          fun k => (rowCandidates ctx declared rawSlots).find? fun d => d.1.toNat = k := rfl
  rw [hfirst]
  generalize rowCandidates ctx declared rawSlots = candidates
  have hat (d : UInt32 × Nat) : decide (d.1.toNat = slot.toNat) = (d.1 == slot) := by
    rw [Bool.eq_iff_iff, decide_eq_true_eq, beq_iff_eq, UInt32.toNat_inj]
  -- What is found for another slot is left out.
  have hother (k : Nat) : (candidates.find? fun d => d.1.toNat = k).filter (·.1 == slot)
      = if k == slot.toNat then candidates.find? fun d => d.1.toNat = k else none := by
    cases hfound : candidates.find? fun d => d.1.toNat = k with
    | none => simp
    | some d =>
      have hd : d.1.toNat = k := by simpa using List.find?_some hfound
      rw [Option.filter_some, ← hat, hd]
      simp
  rw [List.filter_filterMap]
  simp only [hother]
  rw [← List.filterMap_filter, filter_beq_of_nodup (nodup_ascending _)]
  simp only [← hat]
  split
  · cases hfound : candidates.find? fun d => d.1.toNat = slot.toNat <;> simp [hfound]
  · next hnone =>
    have hmissing : candidates.find? (fun d => d.1.toNat = slot.toNat) = none := by
      rw [List.find?_eq_none]
      intro d hd h
      exact hnone (mem_ascending.2 (List.mem_map.2 ⟨d, hd, of_decide_eq_true h⟩))
    rw [hmissing]
    rfl

end

theorem one_le_of_mem_declaredBuffers (program : Option Program) :
    ∀ d ∈ declaredBuffers program, 1 ≤ d.2 := by
  intro d hd
  obtain ⟨declaration, -, hd⟩ := List.mem_filterMap.1 hd
  unfold declaredRows? at hd
  split at hd
  · split at hd
    · cases hd
      exact Nat.le_max_right _ 1
    · cases hd
  · cases hd

/-! ### Whole shaders

The blocks of a shader are those of buffers and behind them those of rows. -/

/-- Whatever asks for the rows of a slot of a container, in the order in which it is asked. -/
def rowCandidatesOf (c : Container) : List (UInt32 × Nat) :=
  rowCandidates (contextOf c) (declaredBuffers c.program) (bodyOf c).rawSlots

theorem blocksNamed_rowsBlockName (options : Options) (c : Container) (slot : UInt32) :
    blocksNamed (rowsBlockName slot) (shader options c).blocks
      = blocksNamed (rowsBlockName slot) (definedBlocks options c) ++
        ((rowCandidatesOf c).find? (·.1 == slot)).toList.map
          (rawBlock (contextOf c) options.bindings) := by
  have hblocks : (shader options c).blocks = definedBlocks options c ++
      (rawBuffers (contextOf c) (declaredBuffers c.program) (bodyOf c).rawSlots).map
        (rawBlock (contextOf c) options.bindings) := rfl
  -- a block has the name of a slot only if it is the one for that slot
  have hname (d : UInt32 × Nat) :
      ((rawBlock (contextOf c) options.bindings d).name? == some (rowsBlockName slot))
        = (d.1 == slot) := by
    rw [Bool.eq_iff_iff, beq_iff_eq, beq_iff_eq]
    constructor
    · exact fun h => rowsBlockName_injective (Option.some.inj h)
    · rintro rfl
      rfl
  rw [hblocks, blocksNamed, List.filter_append, List.filter_map]
  simp only [Function.comp_def, hname, filter_rawBuffers]
  rfl

/-- **Plain rows are declared.** Besides the blocks of defined buffers that happen to have its name,
a slot has one block of rows at most. If the body reads its rows, it has one, with at least one row
and no less than the buffer at the slot. -/
theorem declared_rawBuffer (options : Options) (c : Container) (slot : UInt32) :
    ∃ rows : List UniformBlockDeclaration,
      blocksNamed (rowsBlockName slot) (shader options c).blocks
        = blocksNamed (rowsBlockName slot) (definedBlocks options c) ++ rows ∧
      rows.length ≤ 1 ∧
      (.bufferRows slot ∈ (shader options c).names ∨ slot ∈ (bodyOf c).rawSlots →
        ∃ binding count, rows = [rowsBlock binding slot count] ∧ 1 ≤ count ∧
          ∀ b ∈ (contextOf c).bufferAt? slot, b.size.toNat ≤ 16 * count) := by
  refine ⟨_, blocksNamed_rowsBlockName options c slot, ?_, fun hread => ?_⟩
  · cases (rowCandidatesOf c).find? (·.1 == slot) <;> simp
  · have hraw : slot ∈ (bodyOf c).rawSlots := hread.elim (grounded_names c options _) id
    -- the body asks for the slot, among others perhaps
    have hasked : (slot, rowsOfBuffer ((contextOf c).bufferAt? slot)) ∈ rowCandidatesOf c :=
      List.mem_append_right _ (List.mem_map.2 ⟨slot, hraw, rfl⟩)
    cases hfound : (rowCandidatesOf c).find? (·.1 == slot) with
    | none => exact absurd (List.find?_eq_none.1 hfound _ hasked) (by simp)
    | some d =>
      obtain rfl : d.1 = slot := by simpa using List.find?_some hfound
      have henough := enough_of_mem_rowCandidates (one_le_of_mem_declaredBuffers c.program) d
        (List.mem_of_find?_eq_some hfound)
      exact ⟨_, d.2, rfl, henough⟩

/-- A row of the constant buffer at a slot. -/
def rowOperand (slot row : UInt64) (base : Option Operand) : Operand :=
  .mk ⟨0, .constantBuffer, .four (.mask .all), .none, .full, false⟩
    (.cons ⟨.immediate32, slot, none⟩ (.cons ⟨.immediate32PlusRelative, row, base⟩ .nil)) none

/-- A program that reads a row of the buffer at slot 5, whose number stands in a row behind the end
of the buffer at slot 2. -/
def nestedRows : Container :=
  packedContainer (some ⟨5, 0, .pixel,
    [bareOperation .mov [wholeRegister .output 0, rowOperand 5 0 (some (rowOperand 2 9 none))]]⟩)

/-- The row within the index is declared, in an array that is as large as the buffer. -/
theorem declared_rawBuffer_nestedRows :
    ∃ binding count, blocksNamed "cb2_block" (shader .standard nestedRows).blocks
        = [rowsBlock binding 2 count] ∧ packedBuffer.size.toNat ≤ 16 * count := by
  have hread : .bufferRows 2 ∈ (shader .standard nestedRows).names := by decide +kernel
  have hname : rowsBlockName 2 = "cb2_block" := by decide
  have hdefined : blocksNamed "cb2_block" (definedBlocks .standard nestedRows) = [] := by
    decide +kernel
  obtain ⟨rows, hblocks, -, hrows⟩ := declared_rawBuffer .standard nestedRows 2
  obtain ⟨binding, count, rfl, -, hsize⟩ := hrows (.inl hread)
  rw [hname, hdefined] at hblocks
  exact ⟨binding, count, hblocks, hsize packedBuffer rfl⟩

/-- A program that reads a row at slot 0, with a buffer that is named like the block of these
rows. -/
def ownName : Container :=
  .ofPayloads (.ofBytes #[]) []
    [.resources ⟨4, 0, .pixel, 0, "", none,
      [⟨"cb0_block", [floatVariable "cb0" 0 32 4 2], 32, 0, .constantBuffer⟩], []⟩,
    .program ⟨5, 0, .pixel, [bareOperation .mov [wholeRegister .output 0, rowOperand 0 0 none]]⟩]

/-- Where a defined buffer has the name of the rows that the body reads, there are two blocks. -/
theorem not_declared_once_ownName :
    ¬ ∀ (options : Options) (c : Container) (slot : UInt32),
      .bufferRows slot ∈ (shader options c).names →
      ∃ binding count, blocksNamed (rowsBlockName slot) (shader options c).blocks
          = [rowsBlock binding slot count] ∧ 1 ≤ count ∧
        ∀ b ∈ (contextOf c).bufferAt? slot, b.size.toNat ≤ 16 * count := by
  intro h
  have htwo : (blocksNamed (rowsBlockName 0) (shader .standard ownName).blocks).length = 2 := by
    decide +kernel
  obtain ⟨binding, count, hblocks, -⟩ := h .standard ownName 0 (by decide +kernel)
  rw [hblocks] at htwo
  cases htwo

end Glsl
end ShaderBytecode
