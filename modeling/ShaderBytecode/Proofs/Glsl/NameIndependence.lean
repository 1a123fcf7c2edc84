import ShaderBytecode.Proofs.Glsl.Agreement
import ShaderBytecode.Proofs.Glsl.Identifiers

/-!
# Names do not matter

A container brings along texts that do not become identifiers: the semantic names of its
signatures, the names of constant buffers without variables and those of textures without a sampler.
They stand in comments of the shader, and nothing else depends on them.

    withoutNames_shader_eq : containers that differ by such names have the same shader, apart from
                             its comments
    emit_sameButNames      : and the same text outside of comments, if the comments stay on their
                             lines

`not_sameLines_lineEnd` shows a comment that does not.

The proof compares the parts of two shaders one by one. A part that has no such name is the same in
both, and of a part that may have one the comments are left out first.
-/

namespace ShaderBytecode

/-! ### Signatures without names

A signature is used for types, registers and linkage, and for comments. Leaving out the names leaves
all of these uses but the last as they are. -/

/-- An element without its semantic name. -/
def SignatureElement.unnamed (e : SignatureElement) : SignatureElement := { e with name := "" }

namespace Signature

/-- A signature without semantic names. -/
def unnamed (s : Signature) : Signature := ⟨s.elements.map SignatureElement.unnamed⟩

theorem firstPerRegister_unnamed (seen elements : List SignatureElement) :
    firstPerRegister (seen.map SignatureElement.unnamed) (elements.map SignatureElement.unnamed)
      = (firstPerRegister seen elements).map SignatureElement.unnamed := by
  induction elements generalizing seen with
  | nil => rfl
  | cons e rest ih =>
    have hrest := ih (e :: seen)
    rw [List.map_cons] at hrest
    simp only [List.map_cons, firstPerRegister, List.any_map, hrest, ih seen]
    rw [apply_ite (List.map SignatureElement.unnamed)]
    rfl

theorem registers_unnamed (s : Signature) :
    s.unnamed.registers = s.registers.map SignatureElement.unnamed :=
  firstPerRegister_unnamed [] s.elements

end Signature

namespace Glsl

theorem registersOf_unnamed (s : Option Signature) :
    (s.map Signature.unnamed).toList.flatMap Signature.registers
      = (s.toList.flatMap Signature.registers).map SignatureElement.unnamed := by
  cases s with
  | none => rfl
  | some s => simp [Signature.registers_unnamed]

theorem signatureType_unnamed (s : Option Signature) :
    signatureType (s.map Signature.unnamed) = signatureType s := by
  funext register
  have hregister : (fun e : SignatureElement => e.register == register) ∘ SignatureElement.unnamed
      = fun e => e.register == register := rfl
  unfold signatureType
  rw [registersOf_unnamed, ← List.map_reverse, List.find?_map, hregister]
  cases (s.toList.flatMap Signature.registers).reverse.find? (·.register == register) <;> rfl

theorem prologue_unnamed (stage : Option Stage) (type : UInt32 → NumberType)
    (s : Option Signature) :
    prologue stage type (s.map Signature.unnamed) = prologue stage type s := by
  rw [prologue, registersOf_unnamed, List.filterMap_map]
  rfl

theorem distinctRegisters_unnamed (seen : List UInt32) (elements : List SignatureElement) :
    distinctRegisters seen (elements.map SignatureElement.unnamed)
      = (distinctRegisters seen elements).map SignatureElement.unnamed := by
  induction elements generalizing seen with
  | nil => rfl
  | cons e rest ih =>
    simp only [List.map_cons, distinctRegisters, ih]
    rw [apply_ite (List.map SignatureElement.unnamed)]
    rfl

theorem declaringElements_unnamed (s : Option Signature) :
    declaringElements (s.map Signature.unnamed)
      = (declaringElements s).map SignatureElement.unnamed := by
  rw [declaringElements, registersOf_unnamed, distinctRegisters_unnamed, declaringElements]

theorem epilogue_unnamed (stage : Option Stage) (s : Option Signature) :
    epilogue stage (s.map Signature.unnamed) = epilogue stage s := by
  rw [epilogue, declaringElements_unnamed, List.filter_map, List.map_map]
  rfl

theorem registerDeclarations_unnamed (file : RegisterFile) (direction : String)
    (elements : List SignatureElement) {linkage : SignatureElement → Linkage}
    (hlinkage : ∀ e, linkage e.unnamed = linkage e) (used : List Nat) :
    (registerDeclarations file direction (elements.map SignatureElement.unnamed) linkage used).map
        RegisterDeclaration.withoutName
      = (registerDeclarations file direction elements linkage used).map
        RegisterDeclaration.withoutName := by
  simp only [registerDeclarations, List.map_append, List.map_map, List.any_map, Function.comp_def,
    hlinkage]
  rfl

theorem inputDeclarations_unnamed (stage : Option Stage) (program : Option Program)
    (s : Option Signature) (used : List Nat) :
    (inputDeclarations stage program (s.map Signature.unnamed) used).map
        RegisterDeclaration.withoutName
      = (inputDeclarations stage program s used).map RegisterDeclaration.withoutName := by
  rw [inputDeclarations, declaringElements_unnamed, inputDeclarations]
  exact registerDeclarations_unnamed .input "in" _ (fun _ => rfl) used

theorem outputDeclarations_unnamed (stage : Option Stage) (s : Option Signature) (used : List Nat) :
    (outputDeclarations stage (s.map Signature.unnamed) used).map RegisterDeclaration.withoutName
      = (outputDeclarations stage s used).map RegisterDeclaration.withoutName := by
  rw [outputDeclarations, declaringElements_unnamed, outputDeclarations]
  exact registerDeclarations_unnamed .output "out" _ (fun _ => rfl) used

end Glsl

/-! ### Bindings without names

The name of a binding is that of a texture. It gets into the code if there is a sampler, so only the
others are left out. -/

/-- A binding without its name, where this names no sampler. -/
def ResourceBinding.unnamed (slots : List Nat) (b : ResourceBinding) : ResourceBinding :=
  if (Glsl.Texture.ofBinding? b).any (·.namesSampler slots) then b else { b with name := "" }

namespace Glsl

section

variable (slots : List Nat)

theorem Texture.ofBinding?_unnamed (b : ResourceBinding) :
    ofBinding? (b.unnamed slots) = (ofBinding? b).map (Texture.unnamed slots) := by
  unfold ResourceBinding.unnamed
  -- only a binding of a texture has a texture
  by_cases hkind : b.kind = .texture
  · have hbinding : ofBinding? b
        = some ⟨b.name, b.bindPoint.toNat, b.slotCount, b.dimension, b.returnType⟩ := if_pos hkind
    rw [hbinding, Option.any_some, Option.map_some, unnamed]
    split
    · exact hbinding
    · exact if_pos hkind
  · have hbinding : ofBinding? b = none := if_neg hkind
    rw [hbinding, Option.any_none, if_neg Bool.false_ne_true, Option.map_none]
    exact if_neg hkind

theorem Texture.addUncovered_unnamed (known textures : List Texture) :
    addUncovered (known.map (Texture.unnamed slots)) (textures.map (Texture.unnamed slots))
      = (addUncovered known textures).map (Texture.unnamed slots) := by
  induction textures generalizing known with
  | nil => rfl
  | cons t ts ih =>
    have hadd := ih (known ++ [t])
    rw [List.map_append, List.map_singleton] at hadd
    simp only [List.map_cons, addUncovered, List.any_map, Function.comp_def, covers_unnamed,
      bindPoint_unnamed, hadd, ih known]
    exact (apply_ite (List.map (Texture.unnamed slots)) _ _ _).symm

/-- The bindings of a container. -/
def bindingsOf (c : Container) : List ResourceBinding := c.resources.toList.flatMap (·.bindings)

theorem Texture.collect_unnamed (c : Container) :
    (contextOf c).textures.map (Texture.unnamed slots)
      = (addUncovered (((bindingsOf c).map (ResourceBinding.unnamed slots)).filterMap ofBinding?)
          (((c.program.toList.flatMap Program.declarations).filterMap ofDeclaration?).map
            (Texture.unnamed slots))).mergeSort fun a b => a.bindPoint ≤ b.bindPoint := by
  have hbound : ((bindingsOf c).map (ResourceBinding.unnamed slots)).filterMap ofBinding?
      = ((bindingsOf c).filterMap ofBinding?).map (Texture.unnamed slots) := by
    rw [List.filterMap_map, List.map_filterMap]
    exact List.filterMap_congr fun b _ => ofBinding?_unnamed slots b
  rw [hbound, addUncovered_unnamed]
  exact List.map_mergeSort fun a _ b _ => by rw [bindPoint_unnamed, bindPoint_unnamed]

theorem Texture.withoutName_unnamed (t : Texture) :
    (t.unnamed slots).declaration.withoutName = t.declaration.withoutName := by
  unfold unnamed
  split
  · rfl
  · next hname =>
    -- what is sampled would have kept its name
    have hsuffix : t.dimension.samplerSuffix? = none := by
      rw [namesSampler, Bool.or_eq_true, not_or] at hname
      simpa using hname.1
    simp only [declaration, hsuffix]
    rfl

theorem bufferAtSteps_unnamed (c : Container) (slot : UInt32) :
    (contextOf c).bufferAtSteps slot
      = ((lookedAt (fun b => b.kind == .constantBuffer && b.covers slot.toNat)
          ((bindingsOf c).map (ResourceBinding.unnamed slots))).filter
            (·.kind == .constantBuffer)).map ResourceBinding.endStep := by
  have hsteps : (contextOf c).bufferAtSteps slot
      = ((lookedAt (fun b => b.kind == .constantBuffer && b.covers slot.toNat)
          (bindingsOf c)).filter (·.kind == .constantBuffer)).map ResourceBinding.endStep := by
    unfold Context.bufferAtSteps contextOf bindingsOf
    cases c.resources with
    | none => rfl
    | some d => simp [ResourceDefinitions.bindingAtSteps]
  -- without its name a binding has the same kind, the same slots and the same end
  have hunnamed (b : ResourceBinding) : (b.unnamed slots).kind = b.kind ∧
      (b.unnamed slots).covers = b.covers ∧ (b.unnamed slots).endStep = b.endStep := by
    unfold ResourceBinding.unnamed
    split <;> exact ⟨rfl, rfl, rfl⟩
  rw [hsteps, lookedAt_map, List.filter_map, List.map_map]
  simp only [Function.comp_def, fun b => (hunnamed b).1, fun b => (hunnamed b).2.1,
    fun b => (hunnamed b).2.2]

end

/-! ### Constant buffers without names

A constant buffer without variables is read by rows, under a name made from its slot. Its own name
counts when bindings are given by name, so these are compared apart. -/

theorem withoutName_bufferBlock? (bindings : BlockBindings) (b : ConstantBuffer) :
    (bufferBlock? bindings b.unnamed).map UniformBlockDeclaration.withoutName
      = (bufferBlock? bindings b).map UniformBlockDeclaration.withoutName := by
  unfold ConstantBuffer.unnamed
  split
  · next hvars =>
    simp only [bufferBlock?, hvars]
    split <;> rfl
  · rfl

/-- The constant buffer at a slot without its name, and the binding number that it has by its
name. -/
def boundBuffer? (options : Options) (c : Container) (slot : UInt32) :
    Option (Option Nat × ConstantBuffer) :=
  ((contextOf c).bufferAt? slot).map fun b => (options.bindings.get? b.name, b.unnamed)

theorem unnamed_bufferAt? (options : Options) (c : Container) (slot : UInt32) :
    ((contextOf c).bufferAt? slot).map ConstantBuffer.unnamed
      = (boundBuffer? options c slot).map (·.2) := by
  rw [boundBuffer?, Option.map_map]
  rfl

theorem isNone_bufferAt? (options : Options) (c : Container) (slot : UInt32) :
    ((contextOf c).bufferAt? slot).isNone = (boundBuffer? options c slot).isNone := by
  rw [boundBuffer?, Option.isNone_map]

theorem rowsOfBuffer_bufferAt? (options : Options) (c : Container) (slot : UInt32) :
    rowsOfBuffer ((contextOf c).bufferAt? slot)
      = rowsOfBuffer ((boundBuffer? options c slot).map (·.2)) := by
  rw [← unnamed_bufferAt?]
  cases (contextOf c).bufferAt? slot with
  | none => rfl
  | some b =>
    have hsize : b.unnamed.size = b.size := by
      unfold ConstantBuffer.unnamed
      split <;> rfl
    rw [Option.map_some, rowsOfBuffer, rowsOfBuffer, hsize]

theorem rawBlock_bufferAt? (options : Options) (c : Container) (raw : UInt32 × Nat) :
    rawBlock (contextOf c) options.bindings raw
      = rowsBlock ((boundBuffer? options c raw.1).bind (·.1)) raw.1 raw.2 := by
  rw [boundBuffer?, Option.bind_map]
  rfl

/-! ### Containers that differ by names in comments

Which containers differ by names in comments is said with the names left out on both sides. -/

/-- The constant buffers of a container. -/
def buffersOf (c : Container) : List ConstantBuffer := c.resources.toList.flatMap (·.buffers)

/-- The slots at which the program of a container looks up textures. -/
def slotsOf (c : Container) : List Nat := lookedUpSlots (entriesOf c)

/-- Two containers differ at most by names that a shader has in its comments: semantic names, names
of constant buffers without variables, and of textures without a sampler. Where buffers are bound by
their names, the same are bound. -/
structure SameButNames (options : Options) (c c' : Container) : Prop where
  program : c.program = c'.program
  stage : c.resources.map (·.stage) = c'.resources.map (·.stage)
  inputs : c.inputSignature.map Signature.unnamed = c'.inputSignature.map Signature.unnamed
  outputs : c.outputSignature.map Signature.unnamed = c'.outputSignature.map Signature.unnamed
  buffers : (buffersOf c).map ConstantBuffer.unnamed = (buffersOf c').map ConstantBuffer.unnamed
  bindings : (bindingsOf c).map (ResourceBinding.unnamed (slotsOf c))
    = (bindingsOf c').map (ResourceBinding.unnamed (slotsOf c))
  boundBuffer : ∀ slot, boundBuffer? options c slot = boundBuffer? options c' slot

namespace SameButNames

variable {options : Options} {c c' : Container}

theorem textures_eq (h : SameButNames options c c') :
    (contextOf c).textures.map (Texture.unnamed (slotsOf c))
      = (contextOf c').textures.map (Texture.unnamed (slotsOf c)) := by
  rw [Texture.collect_unnamed, h.bindings, h.program, ← Texture.collect_unnamed]

theorem stageOf_eq (h : SameButNames options c c') : stageOf c = stageOf c' := by
  rw [stageOf, h.program, h.stage, stageOf]

theorem inputType_eq (h : SameButNames options c c') :
    signatureType c.inputSignature = signatureType c'.inputSignature := by
  rw [← signatureType_unnamed, h.inputs, signatureType_unnamed]

theorem agrees (h : SameButNames options c c') :
    (bodyContextOf c).Agrees (slotsOf c) (bodyContextOf c') where
  context :=
    { inputType := h.inputType_eq
      outputType := by
        show signatureType c.outputSignature = signatureType c'.outputSignature
        rw [← signatureType_unnamed, h.outputs, signatureType_unnamed]
      bufferAt slot := by
        show ((contextOf c).bufferAt? slot).map _ = ((contextOf c').bufferAt? slot).map _
        rw [unnamed_bufferAt? options, h.boundBuffer, ← unnamed_bufferAt?]
      bufferAtSteps := by
        funext slot
        show (contextOf c).bufferAtSteps slot = (contextOf c').bufferAtSteps slot
        rw [bufferAtSteps_unnamed (slotsOf c), h.bindings, ← bufferAtSteps_unnamed] }
  textures := h.textures_eq
  copies := by
    show epilogue (stageOf c) c.outputSignature = epilogue (stageOf c') c'.outputSignature
    rw [h.stageOf_eq, ← epilogue_unnamed, h.outputs, epilogue_unnamed]
  usedTemps := congrArg usedTempCount h.program

theorem bodyOf_eq (h : SameButNames options c c') : bodyOf c = bodyOf c' := by
  have hprologue (type : UInt32 → NumberType) : prologue (stageOf c) type c.inputSignature
      = prologue (stageOf c') type c'.inputSignature := by
    rw [h.stageOf_eq, ← prologue_unnamed, h.inputs, prologue_unnamed]
  rw [bodyOf, bodyOf, body_eq_of_agrees h.agrees, hprologue, h.inputType_eq, h.program]

theorem rawBuffers_eq (h : SameButNames options c c') (declared : List (UInt32 × Nat))
    (rawSlots : List UInt32) :
    rawBuffers (contextOf c) declared rawSlots = rawBuffers (contextOf c') declared rawSlots := by
  simp only [rawBuffers, isNone_bufferAt? options, rowsOfBuffer_bufferAt? options, h.boundBuffer]

theorem blocks_eq (h : SameButNames options c c') :
    (shader options c).blocks.map UniformBlockDeclaration.withoutName
      = (shader options c').blocks.map UniformBlockDeclaration.withoutName := by
  -- the blocks of buffers are made from the buffers alone
  have hdefined (c : Container) :
      (definedBlocks options c).map UniformBlockDeclaration.withoutName
        = ((buffersOf c).map ConstantBuffer.unnamed).filterMap fun b =>
            (bufferBlock? options.bindings b).map UniformBlockDeclaration.withoutName := by
    rw [List.filterMap_map, definedBlocks, List.map_filterMap]
    exact List.filterMap_congr fun b _ => (withoutName_bufferBlock? options.bindings b).symm
  have hraw : rawBlock (contextOf c) options.bindings
      = rawBlock (contextOf c') options.bindings := by
    funext raw
    rw [rawBlock_bufferAt?, h.boundBuffer, ← rawBlock_bufferAt?]
  -- a block of plain rows has the binding of its buffer
  have hblocks (c : Container) : (shader options c).blocks = definedBlocks options c ++
      (rawBuffers (contextOf c) (declaredBuffers c.program) (bodyOf c).rawSlots).map
        (rawBlock (contextOf c) options.bindings) := rfl
  rw [hblocks, hblocks, List.map_append, List.map_append, hdefined, hdefined, h.buffers,
    h.rawBuffers_eq, hraw, h.program, h.bodyOf_eq]

theorem samplers_eq (h : SameButNames options c c') :
    (shader options c).samplers.map SamplerDeclaration.withoutName
      = (shader options c').samplers.map SamplerDeclaration.withoutName := by
  have hsamplers (d : Container) : (shader options d).samplers.map SamplerDeclaration.withoutName
      = ((contextOf d).textures.map (Texture.unnamed (slotsOf c))).map
          fun t => t.declaration.withoutName := by
    rw [List.map_map]
    refine (List.map_map ..).trans (List.map_congr_left fun t _ => ?_)
    exact (Texture.withoutName_unnamed (slotsOf c) t).symm
  rw [hsamplers, hsamplers, h.textures_eq]

theorem inputs_eq (h : SameButNames options c c') :
    (shader options c).inputs.map RegisterDeclaration.withoutName
      = (shader options c').inputs.map RegisterDeclaration.withoutName := by
  show (inputDeclarations (stageOf c) c.program c.inputSignature _).map _
    = (inputDeclarations (stageOf c') c'.program c'.inputSignature _).map _
  rw [← inputDeclarations_unnamed, h.inputs, inputDeclarations_unnamed, h.stageOf_eq, h.program]

theorem outputs_eq (h : SameButNames options c c') :
    (shader options c).outputs.map RegisterDeclaration.withoutName
      = (shader options c').outputs.map RegisterDeclaration.withoutName := by
  show (outputDeclarations (stageOf c) c.outputSignature _).map _
    = (outputDeclarations (stageOf c') c'.outputSignature _).map _
  rw [← outputDeclarations_unnamed, h.outputs, outputDeclarations_unnamed, h.stageOf_eq, h.program]

/-- **Containers that differ by names in comments have the same shader** without these names. -/
theorem withoutNames_shader_eq (h : SameButNames options c c') :
    (shader options c).withoutNames = (shader options c').withoutNames := by
  have hprofile : (shader options c).profile = (shader options c').profile :=
    congrArg (Option.map Program.profile) h.program
  have himmediate : (shader options c).immediateBuffer = (shader options c').immediateBuffer :=
    congrArg (Option.bind · Program.immediateBuffer?) h.program
  have hbody : (shader options c).body = (shader options c').body :=
    congrArg Traced.value h.bodyOf_eq
  have hversion : (shader options c).version = (shader options c').version := rfl
  simp only [Shader.withoutNames, hversion, hprofile, himmediate, hbody, h.blocks_eq, h.samplers_eq,
    h.inputs_eq, h.outputs_eq]

end SameButNames

/-! ### Names in comments

What is left is to put the names back, as comments. That needs the comments to stay on their lines.
-/

section

variable {options : Options} {c c' : Container}

/-- Each line end in a name that a comment holds is one line more. -/
theorem lineEnds_emit :
    lineEnds (emit options c)
      = lineEnds (shader options c).withoutNames.text + breaks (shader options c).nameComments :=
  Shader.lineEnds_text wellNamed_shader

theorem SameButNames.lineEnds_add_breaks (h : SameButNames options c c') :
    lineEnds (emit options c) + breaks (shader options c').nameComments
      = lineEnds (emit options c') + breaks (shader options c).nameComments := by
  rw [lineEnds_emit, lineEnds_emit, h.withoutNames_shader_eq, Nat.add_right_comm]

theorem SameButNames.codeOf_eq (h : SameButNames options c c')
    (hc : ∀ comment ∈ (shader options c).nameComments, Inline comment)
    (hc' : ∀ comment ∈ (shader options c').nameComments, Inline comment) :
    codeOf (emit options c) = codeOf (emit options c') := by
  calc codeOf (emit options c)
    _ = codeOf (shader options c).withoutNames.text := Shader.codeOf_text wellNamed_shader hc
    _ = codeOf (shader options c').withoutNames.text := by rw [h.withoutNames_shader_eq]
    _ = codeOf (emit options c') := (Shader.codeOf_text wellNamed_shader hc').symm

end

/-- **No name gets into the code** from a comment that stays on its line. All names of resources
become identifiers. Containers that differ by names in comments have as many lines, but for the line
ends within these names; if the comments stay on their lines, the lines are as many and the same
outside of comments. -/
theorem emit_sameButNames (options : Options) :
    (∀ c, ∀ id ∈ (shader options c).identifiers, ValidIdentifier id) ∧
    ∀ c c', SameButNames options c c' →
      lineEnds (emit options c) + breaks (shader options c').nameComments
        = lineEnds (emit options c') + breaks (shader options c).nameComments ∧
      ((∀ comment ∈ (shader options c).nameComments ++ (shader options c').nameComments,
          Inline comment) →
        lineEnds (emit options c) = lineEnds (emit options c') ∧
          codeOf (emit options c) = codeOf (emit options c')) := by
  refine ⟨fun c => validIdentifier_of_mem_identifiers, fun c c' h => ?_⟩
  have hlines := h.lineEnds_add_breaks
  refine ⟨hlines, fun hinline => ?_⟩
  obtain ⟨hc, hc'⟩ := List.forall_mem_append.1 hinline
  rw [breaks_eq_zero hc, breaks_eq_zero hc', Nat.add_zero, Nat.add_zero] at hlines
  exact ⟨hlines, h.codeOf_eq hc hc'⟩

/-- A constant buffer without variables, and a raw buffer, both at slot 0. -/
def namedDefinitions (buffer texture : String) : ResourceDefinitions :=
  ⟨5, 0, .pixel, 0, "", none, [⟨buffer, [], 16, 0, .constantBuffer⟩],
    [⟨buffer, .constantBuffer, .unused, .unknown, 0, 0, 1, 0⟩,
      ⟨texture, .texture, .mixed, .rawBuffer, 0, 0, 1, 0⟩]⟩

/-- A container with an input, a constant buffer and a raw buffer of these names. -/
def namedContainer (semantic buffer texture : String) : Container :=
  .ofPayloads (.ofBytes #[]) []
    [.inputSignature ⟨[⟨semantic, 0, .undefined, .float32, 0, 15, 15, 0, .full⟩]⟩,
      .resources (namedDefinitions buffer texture)]

theorem bufferAt?_namedDefinitions (buffer texture : String) (slot : Nat) :
    (namedDefinitions buffer texture).bufferAt? slot
      = if slot = 0 then some ⟨buffer, [], 16, 0, .constantBuffer⟩ else none := by
  cases slot <;>
    simp [namedDefinitions, ResourceDefinitions.bufferAt?, ResourceDefinitions.bindingAt?,
      ResourceDefinitions.buffer?, ResourceBinding.covers, ResourceBinding.slotCount]

theorem sameButNames_namedContainer
    (semantic buffer texture semantic' buffer' texture' : String) :
    SameButNames .standard (namedContainer semantic buffer texture)
      (namedContainer semantic' buffer' texture') where
  program := rfl
  stage := rfl
  inputs := rfl
  outputs := rfl
  buffers := rfl
  bindings := rfl
  boundBuffer slot := by
    show ((namedDefinitions buffer texture).bufferAt? _).map _
      = ((namedDefinitions buffer' texture').bufferAt? _).map _
    rw [bufferAt?_namedDefinitions, bufferAt?_namedDefinitions]
    split <;> rfl

/-- All names of the container may be others, also by slashes and other marks. -/
theorem emit_sameButNames_namedContainer :
    let c := namedContainer "POSITION" "Globals" "Lights"
    let c' := namedContainer "*/ float x;" "$Params" "// t0"
    lineEnds (emit .standard c) = lineEnds (emit .standard c') ∧
      codeOf (emit .standard c) = codeOf (emit .standard c') := by
  intro c c'
  have hsame : SameButNames .standard c c' := sameButNames_namedContainer ..
  obtain ⟨-, hinline⟩ := (emit_sameButNames .standard).2 c c' hsame
  exact hinline (by decide +kernel)

/-- A semantic name with a line end leaves its comment, and the shader has a line more. -/
theorem not_sameLines_lineEnd :
    ¬ ∀ (options : Options) (c c' : Container), SameButNames options c c' →
      lineEnds (emit options c) = lineEnds (emit options c') ∧
        codeOf (emit options c) = codeOf (emit options c') := by
  intro h
  have hsame := sameButNames_namedContainer "POS" "Globals" "Lights" "POS\nfloat evil" "Globals"
    "Lights"
  obtain ⟨hequal, -⟩ := h _ _ _ hsame
  have hbreaks := hsame.lineEnds_add_breaks
  rw [hequal, Nat.add_left_cancel_iff] at hbreaks
  exact absurd hbreaks (by decide +kernel)

end Glsl
end ShaderBytecode
