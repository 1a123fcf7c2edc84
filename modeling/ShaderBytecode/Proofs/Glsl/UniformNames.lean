import ShaderBytecode.Proofs.Glsl.Entries

/-!
# The uniform variables that a body names

A body names members of uniform blocks where it reads constant buffers, and samplers where it looks
up textures. Both are found by slot, while the blocks and the samplers are declared from the
resource definitions and the program as a whole. Whether a name is declared depends on two
conditions that only the declarations look at: the kind of a buffer and the shape of a texture.

    declared_uniformNames : a member that is named is declared, or else a variable of a buffer whose
                            kind has no block; a sampler that is named is declared, or else that of
                            a texture whose shape is not sampled

`not_declared_rawBuffer` shows such a texture.
-/

namespace ShaderBytecode
namespace Glsl

/-! ### Declared names

A member is declared within a block and named without it, so that the names of all blocks form one
list. -/

/-- The names of the members of a block. -/
def UniformBlockDeclaration.memberNames : UniformBlockDeclaration → List String
  | block _ _ members => members.map (·.name)
  | empty _ => []

/-- The name of a sampler that is declared. -/
def SamplerDeclaration.name? : SamplerDeclaration → Option String
  | sampler _ _ name _ => some name
  | notSampled _ _ => none

/-- The names of all members of uniform blocks. -/
def Shader.memberNames (s : Shader) : List String :=
  s.blocks.flatMap UniformBlockDeclaration.memberNames

/-- The names of all samplers. -/
def Shader.samplerNames (s : Shader) : List String :=
  s.samplers.filterMap SamplerDeclaration.name?

/-- A constant buffer is of a kind that has a block. -/
def HasBlock (b : ConstantBuffer) : Prop := b.kind = .constantBuffer ∨ b.kind = .textureBuffer

theorem name_blockMember (v : Variable) : (blockMember v).name = identifier v.name := by
  unfold blockMember
  dsimp only
  split <;> rfl

theorem mem_memberNames {options : Options} {c : Container} {d : ResourceDefinitions}
    {b : ConstantBuffer} {v : Variable} (hd : c.resources = some d) (hb : b ∈ d.buffers)
    (hkind : HasBlock b) (hv : v ∈ b.vars) :
    identifier v.name ∈ (shader options c).memberNames := by
  -- A buffer without variables has a comment in the place of its block.
  have hvars : b.vars.isEmpty = false := by
    simpa using List.ne_nil_of_mem hv
  let block : UniformBlockDeclaration :=
    .block (options.bindings.get? b.name) (identifier b.name) (b.vars.map blockMember)
  have hblock : bufferBlock? options.bindings b = some block := by
    unfold bufferBlock?
    rw [if_pos (by exact hkind), hvars, if_neg Bool.false_ne_true]
  have hname : identifier v.name ∈ block.memberNames := by
    rw [UniformBlockDeclaration.memberNames, List.map_map]
    exact List.mem_map.2 ⟨v, hv, name_blockMember v⟩
  refine List.mem_flatMap.2 ⟨block, List.mem_append_left _ ?_, hname⟩
  exact List.mem_filterMap.2 ⟨b, by simpa [hd] using hb, hblock⟩

theorem mem_samplerNames {options : Options} {c : Container} {t : Texture}
    (ht : t ∈ (contextOf c).textures) (hshape : t.dimension.samplerSuffix? ≠ none) :
    identifier t.name ∈ (shader options c).samplerNames := by
  obtain ⟨suffix, hsuffix⟩ := Option.ne_none_iff_exists'.1 hshape
  have hname : t.declaration.name? = some (identifier t.name) := by
    rw [Texture.declaration, hsuffix]
    rfl
  exact List.mem_filterMap.2 ⟨t.declaration, List.mem_map_of_mem ht, hname⟩

/-! ### Named and declared

What a body names has been traced to a variable of a buffer or to a texture by `grounded_names`. It
remains to compare the two conditions under which the declaration is left out. -/

/-- **The uniform variables that a body names are declared**, apart from variables of buffers whose
kind has no block and from textures whose shape is not sampled. -/
theorem declared_uniformNames (options : Options) (c : Container) :
    (∀ id, .member id ∈ (shader options c).names →
      id ∈ (shader options c).memberNames ∨
        ∃ slot, ∃ b ∈ (contextOf c).bufferAt? slot,
          ¬ HasBlock b ∧ ∃ v ∈ b.vars, identifier v.name = id) ∧
    ∀ id, .sampler id ∈ (shader options c).names →
      id ∈ (shader options c).samplerNames ∨
        ∃ t ∈ (contextOf c).textures,
          t.dimension.samplerSuffix? = none ∧ identifier t.name = id := by
  constructor
  · intro id hid
    obtain ⟨slot, b, hb, v, hv, rfl⟩ := grounded_names c options _ hid
    -- a buffer whose kind has no block leaves the second alternative
    by_cases hkind : HasBlock b
    · obtain ⟨d, hd, hmem⟩ := of_bufferAt?_eq_some hb
      exact .inl (mem_memberNames hd hmem hkind hv)
    · exact .inr ⟨slot, b, hb, hkind, v, hv, rfl⟩
  · intro id hid
    obtain ⟨t, ht, rfl⟩ := grounded_names c options _ hid
    by_cases hshape : t.dimension.samplerSuffix? = none
    · exact .inr ⟨t, ht, hshape, rfl⟩
    · exact .inl (mem_samplerNames ht hshape)

/-- A texture at slot 0 is declared, and a texel of it is fetched. -/
def fetchFrom (shape : Dimension) : List Instruction :=
  [.declaration (.resource (wholeRegister .resource 0) shape 0 ⟨.float, .float, .float, .float⟩),
    bareOperation .ld
      [wholeRegister .output 0, wholeRegister .temp 0, wholeRegister .resource 0]]

/-- A container whose program fetches a texel and reads a row of a constant buffer. -/
def fetchAndRead : Container :=
  packedContainer (some ⟨5, 0, .pixel,
    fetchFrom .texture2D ++ [bareOperation .mov [wholeRegister .output 0, packedOperand]]⟩)

/-- The variable of the row and the sampler of the texture are declared. -/
theorem declared_uniformNames_fetchAndRead :
    "Gloss" ∈ (shader .standard fetchAndRead).memberNames ∧
      "t0" ∈ (shader .standard fetchAndRead).samplerNames := by
  obtain ⟨hmembers, hsamplers⟩ := declared_uniformNames .standard fetchAndRead
  constructor
  · refine (hmembers "Gloss" (by decide +kernel)).resolve_right ?_
    rintro ⟨slot, b, hb, hkind, -⟩
    obtain ⟨d, hd, hb⟩ := of_bufferAt?_eq_some hb
    obtain rfl : packedDefinitions = d := Option.some.inj hd
    obtain rfl := List.mem_singleton.1 hb
    exact hkind (.inl rfl)
  · exact (hsamplers "t0" (by decide +kernel)).resolve_right (by decide +kernel)

/-- A texel of a raw buffer may be fetched although no sampler is declared for it. -/
theorem not_declared_rawBuffer :
    ¬ ∀ (options : Options) (c : Container),
      (∀ id, .member id ∈ (shader options c).names → id ∈ (shader options c).memberNames) ∧
      ∀ id, .sampler id ∈ (shader options c).names → id ∈ (shader options c).samplerNames := by
  intro h
  have hdeclared := (h .standard (entriesContainer .pixel (fetchFrom .rawBuffer))).2 "t0"
    (by decide +kernel)
  exact absurd hdeclared (by decide +kernel)

end Glsl
end ShaderBytecode
