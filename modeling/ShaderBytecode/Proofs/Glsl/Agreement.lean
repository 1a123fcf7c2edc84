import ShaderBytecode.Glsl.Emit

/-!
# Containers that lower alike

Lowering looks things up: the constant buffer at a slot, the texture at a slot, the number type of a
register. Where two contexts agree in all of that, everything is lowered to the same.

    Operand.source_eq_of_agrees : operands are lowered alike
    operation_eq                : and so are operations, if they find the same textures
    findAlike_of_unnamed_eq     : names that no sampler has make no difference to what is found
    body_eq_of_agrees           : so the bodies are the same

Of a constant buffer the variables and the size are read, but not the name. The name of a texture is
read where it is the name of a sampler.

Agreement is a statement about lookups and not about containers. Two containers may list different
resources, in another order or under other names, and still agree.
-/

namespace ShaderBytecode

/-! ### Constant buffers without names

A block is declared from its variables, so a buffer that has some is known by them. The name of one
without variables would be the name of nothing. -/

/-- A constant buffer without its name, where it has no variables that make this the name of a
block. -/
def ConstantBuffer.unnamed (b : ConstantBuffer) : ConstantBuffer :=
  if b.vars.isEmpty then { b with name := "" } else b

namespace Glsl

/-- Without variables no offset is resolved. -/
theorem Access.resolve_of_vars_eq_nil {b : ConstantBuffer} (h : b.vars = []) (dynamic : Bool)
    (offset : Nat) : resolve b dynamic offset = none := by
  simp only [resolve, ConstantBuffer.resolve, h, List.takeWhile_nil, List.getLast?_nil, ite_self]

/-- The name of a buffer takes no part in resolving an offset. -/
theorem Access.resolve_unnamed (b : ConstantBuffer) :
    resolve b.unnamed = resolve b := by
  unfold ConstantBuffer.unnamed
  split
  · next hvars =>
    have hnone : b.vars = [] := List.isEmpty_iff.1 hvars
    funext dynamic offset
    rw [resolve_of_vars_eq_nil hnone, resolve_of_vars_eq_nil (b := { b with name := "" }) hnone]
  · rfl

/-- Nor in how many steps that takes. -/
theorem Access.resolveSteps_unnamed (b : ConstantBuffer) :
    resolveSteps b.unnamed = resolveSteps b := by
  unfold ConstantBuffer.unnamed
  split
  · next hvars =>
    have hnone : b.vars = [] := List.isEmpty_iff.1 hvars
    funext offset
    simp only [resolveSteps, ConstantBuffer.resolve, hnone, List.takeWhile_nil, List.getLast?_nil,
      ite_self]
  · rfl

/-- So a row is read by the same accesses. -/
theorem bufferAccesses_unnamed (b : ConstantBuffer) :
    bufferAccesses b.unnamed = bufferAccesses b := by
  funext components lanes row dynamic
  unfold bufferAccesses bufferAccess?
  rw [Access.resolve_unnamed]

/-- And in as many steps. -/
theorem bufferAccessesSteps_unnamed (b : ConstantBuffer) :
    bufferAccessesSteps b.unnamed = bufferAccessesSteps b := by
  funext components lanes row dynamic
  unfold bufferAccessesSteps bufferAccessSteps bufferAccess?
  rw [Access.resolve_unnamed, Access.resolveSteps_unnamed]

/-- Two contexts find the same of everything but textures. -/
structure Context.Agrees (ctx ctx' : Context) : Prop where
  inputType : ctx.inputType = ctx'.inputType
  outputType : ctx.outputType = ctx'.outputType
  bufferAt : ∀ slot,
    (ctx.bufferAt? slot).map ConstantBuffer.unnamed
      = (ctx'.bufferAt? slot).map ConstantBuffer.unnamed
  bufferAtSteps : ctx.bufferAtSteps = ctx'.bufferAtSteps

/-! ### Operands

Lowering an operand asks a context for types and buffers only. The recursion is that of operands
within indices. -/

section

variable {ctx ctx' : Context}

/-- Registers are stored alike. -/
theorem registerStorage_eq (h : ctx.Agrees ctx') : registerStorage ctx = registerStorage ctx' := by
  funext file indices
  unfold registerStorage
  rw [h.inputType, h.outputType]

/-- A row of a constant buffer is lowered alike. -/
theorem rowSource_eq (h : ctx.Agrees ctx') : rowSource ctx = rowSource ctx' := by
  funext slot components row base mask type
  have hbuffer := h.bufferAt slot
  unfold rowSource
  rw [h.bufferAtSteps]
  cases hb : ctx.bufferAt? slot with
  | none =>
    rw [hb, Option.map_none] at hbuffer
    rw [Option.map_eq_none_iff.1 hbuffer.symm]
  | some b =>
    rw [hb, Option.map_some] at hbuffer
    obtain ⟨b', hb', hsame⟩ := Option.map_eq_some_iff.1 hbuffer.symm
    -- the two buffers differ by their names at most
    have haccesses : bufferAccesses b = bufferAccesses b' := by
      rw [← bufferAccesses_unnamed b, ← hsame, bufferAccesses_unnamed]
    have hsteps : bufferAccessesSteps b = bufferAccessesSteps b' := by
      rw [← bufferAccessesSteps_unnamed b, ← hsame, bufferAccessesSteps_unnamed]
    rw [hb']
    simp only [Option.toList_some, List.flatMap_cons, List.flatMap_nil, Option.bind_some,
      Option.isSome_some, haccesses, hsteps]

/-- An operand that names a constant buffer is lowered alike. -/
theorem bufferSource_eq (h : ctx.Agrees ctx') : bufferSource ctx = bufferSource ctx' := by
  funext components indices mask type
  unfold bufferSource
  rw [rowSource_eq h]

/-- Any operand is, if those within it are. -/
theorem sourceOf_eq (h : ctx.Agrees ctx') : sourceOf ctx = sourceOf ctx' := by
  funext head indices literals mask type
  unfold sourceOf unmodifiedSource
  rw [bufferSource_eq h, registerStorage_eq h]

end

end Glsl

open Glsl

mutual

theorem Operand.source_eq_of_agrees {ctx ctx' : Context} (h : ctx.Agrees ctx') (o : Operand) :
    o.source ctx = o.source ctx' := by
  cases o with
  | mk head indices literals =>
    funext mask type
    rw [Operand.source, Operand.source, sourceOf_eq h, Indices.parts_eq_of_agrees h indices]

/-- The indices of an operand are lowered alike. -/
theorem Indices.parts_eq_of_agrees {ctx ctx' : Context} (h : ctx.Agrees ctx')
    (indices : Indices) : indices.parts ctx = indices.parts ctx' := by
  cases indices with
  | nil => rfl
  | fixed _ value rest => rw [Indices.parts, Indices.parts, Indices.parts_eq_of_agrees h rest]
  | relative _ value base rest =>
    rw [Indices.parts, Indices.parts, Operand.source_eq_of_agrees h base,
      Indices.parts_eq_of_agrees h rest]

end

namespace Glsl

/-! ### Operations

An operation lowers its operands and may look up one texture. The lemmas follow the functions that
lower operations, one each. -/

section

variable {ctx ctx' : Context}

/-- A destination is lowered alike. -/
theorem destination_eq (h : ctx.Agrees ctx') : destination ctx = destination ctx' := by
  funext dst
  obtain ⟨head, indices, literals⟩ := dst
  rw [destination, destination, registerStorage_eq h, Indices.parts_eq_of_agrees h]

/-- So is a conversion to the type of a destination. -/
theorem toDestination_eq (h : ctx.Agrees ctx') : toDestination ctx = toDestination ctx' := by
  funext dst statements
  rw [toDestination, toDestination, destination_eq h]

/-- An operation with one source. -/
theorem unary_eq (h : ctx.Agrees ctx') : unary ctx = unary ctx' := by
  funext head dst src
  simp only [unary, toDestination_eq h, Operand.source_eq_of_agrees h]

/-- The texture that an operand names is found in both contexts. -/
def FindAlike (ctx ctx' : Context) (resource : Operand) : Prop :=
  lookup? ctx resource = lookup? ctx' resource ∧
    lookupSteps ctx resource = lookupSteps ctx' resource

/-- A lookup, if both contexts find the texture. -/
theorem textureLookup_eq (h : ctx.Agrees ctx') {resource : Operand}
    (hfind : FindAlike ctx ctx' resource) (head : OperationHead) (dst : Operand)
    (call : Texture → Expr → Traced (NumberType × Expr)) :
    textureLookup ctx head dst resource call = textureLookup ctx' head dst resource call := by
  simp only [textureLookup, toDestination_eq h, hfind.1, hfind.2]

/-- The call that samples. -/
theorem sampleCall_eq (h : ctx.Agrees ctx') : sampleCall ctx = sampleCall ctx' := by
  funext head address sampling texture sampler
  simp only [sampleCall, Operand.source_eq_of_agrees h]

/-- An operation that samples. -/
theorem sample_eq (h : ctx.Agrees ctx') {resource : Operand} (hfind : FindAlike ctx ctx' resource)
    (head : OperationHead) (dst address : Operand) (sampling : Sampling) :
    sample ctx head dst address resource sampling
      = sample ctx' head dst address resource sampling := by
  simp only [sample, sampleCall_eq h, textureLookup_eq h hfind]

/-- An operation that fetches. -/
theorem fetch_eq (h : ctx.Agrees ctx') {resource : Operand} (hfind : FindAlike ctx ctx' resource)
    (head : OperationHead) (dst address : Operand) (number : Option Operand) :
    fetch ctx head dst address resource number = fetch ctx' head dst address resource number := by
  simp only [fetch, fetchCall, Operand.source_eq_of_agrees h, textureLookup_eq h hfind]

/-- A question for the size of a texture. -/
theorem sizeQuery_eq (h : ctx.Agrees ctx') : sizeQuery ctx = sizeQuery ctx' := by
  funext head level texture sampler
  simp only [sizeQuery, Operand.source_eq_of_agrees h]

/-- The operation with a sine and a cosine. -/
theorem sincos_eq (h : ctx.Agrees ctx') : sincos ctx = sincos ctx' := by
  funext head sinDst cosDst value
  simp only [sincos, toDestination_eq h, Operand.source_eq_of_agrees h]

/-- A division with a remainder. -/
theorem divide_eq (h : ctx.Agrees ctx') : divide ctx = divide ctx' := by
  funext head quotientDst remainderDst a b
  simp only [divide, toDestination_eq h, Operand.source_eq_of_agrees h]

/-- A product with two halves. -/
theorem multiplyWide_eq (h : ctx.Agrees ctx') : multiplyWide ctx = multiplyWide ctx' := by
  funext head highDst lowDst a b
  simp only [multiplyWide, toDestination_eq h, Operand.source_eq_of_agrees h]

/-- The value of an operation with three sources. -/
theorem ternaryValue_eq (h : ctx.Agrees ctx') : ternaryValue ctx = ternaryValue ctx' := by
  funext opcode form mask a b c
  simp only [ternaryValue, extractLanes, Operand.source_eq_of_agrees h]

/-- The operand by which an operation looks up a texture. -/
def lookedUp? (head : OperationHead) (operands : List Operand) : Option Operand :=
  match head.opcode, operands with
  | .ld, [_, _, resource] | .resinfo, [_, _, resource] | .sample, [_, _, resource, _]
  | .ldMs, [_, _, resource, _] | .sampleL, [_, _, resource, _, _]
  | .sampleB, [_, _, resource, _, _] | .sampleD, [_, _, resource, _, _, _] => some resource
  | _, _ => none

/-- An operation with two sources, or a lookup with as many. -/
theorem binary_eq (h : ctx.Agrees ctx') {head : OperationHead} {dst a b : Operand}
    (hfind : ∀ resource ∈ lookedUp? head [dst, a, b], FindAlike ctx ctx' resource) :
    binary ctx head dst a b = binary ctx' head dst a b := by
  have hresource (hlooks : lookedUp? head [dst, a, b] = some b) : FindAlike ctx ctx' b :=
    hfind b hlooks
  unfold binary
  split
  · rw [sincos_eq h]
  · next hopcode =>
    exact fetch_eq h (hresource (by simp only [lookedUp?, hopcode])) head dst a none
  · next hopcode =>
    rw [sizeQuery_eq h]
    exact textureLookup_eq h (hresource (by simp only [lookedUp?, hopcode])) head dst _
  · simp only [toDestination_eq h, Operand.source_eq_of_agrees h]

/-- An operation with three sources, or a lookup with as many. -/
theorem ternary_eq (h : ctx.Agrees ctx') {head : OperationHead} {dst a b c : Operand}
    (hfind : ∀ resource ∈ lookedUp? head [dst, a, b, c], FindAlike ctx ctx' resource) :
    ternary ctx head dst a b c = ternary ctx' head dst a b c := by
  have hresource (hlooks : lookedUp? head [dst, a, b, c] = some b) : FindAlike ctx ctx' b :=
    hfind b hlooks
  unfold ternary
  split
  · rw [divide_eq h]
  · rw [multiplyWide_eq h]
  · rw [multiplyWide_eq h]
  · next hopcode =>
    exact sample_eq h (hresource (by simp only [lookedUp?, hopcode])) head dst a .plain
  · next hopcode =>
    exact fetch_eq h (hresource (by simp only [lookedUp?, hopcode])) head dst a (some c)
  · simp only [toDestination_eq h, ternaryValue_eq h]

/-- An operation with another number of operands. -/
theorem general_eq (h : ctx.Agrees ctx') {head : OperationHead} {operands : List Operand}
    (hfind : ∀ resource ∈ lookedUp? head operands, FindAlike ctx ctx' resource)
    (copies : List Assignment) (outside : Bool) :
    general ctx copies outside head operands = general ctx' copies outside head operands := by
  unfold general
  dsimp only
  split
  case h_2 => simp only [condition, Operand.source_eq_of_agrees h] -- conditional exits
  case h_3 => simp only [condition, Operand.source_eq_of_agrees h]
  case h_23 hop => exact sample_eq h (hfind _ (by simp only [lookedUp?, hop]; rfl)) head _ _ _
  case h_24 hop => exact sample_eq h (hfind _ (by simp only [lookedUp?, hop]; rfl)) head _ _ _
  case h_25 hop => exact sample_eq h (hfind _ (by simp only [lookedUp?, hop]; rfl)) head _ _ _
  all_goals rfl -- comments

/-- Any operation. -/
theorem operation_eq (h : ctx.Agrees ctx') {head : OperationHead} {operands : List Operand}
    (hfind : ∀ resource ∈ lookedUp? head operands, FindAlike ctx ctx' resource)
    (copies : List Assignment) (outside : Bool) :
    operation ctx copies outside head operands = operation ctx' copies outside head operands := by
  match operands, hfind with
  | [dst, src], _ => exact congrFun (congrFun (congrFun (unary_eq h) head) dst) src
  | [_, _, _], hfind => exact binary_eq h hfind
  | [_, _, _, _], hfind => exact ternary_eq h hfind
  | [], hfind | [_], hfind | _ :: _ :: _ :: _ :: _ :: _, hfind =>
    exact general_eq h hfind copies outside

/-! ### Textures

A texture is found by its slot. Its name is printed if it is found or declared, and a texture that
no slot of the program finds is declared only if it can be sampled. -/

/-- The slots at which some instructions look up textures. -/
def lookedUpSlots (instructions : List Instruction) : List Nat :=
  instructions.filterMap fun i =>
    match i with
    | .operation head operands =>
      ((lookedUp? head operands).bind (·.register?)).map (·.toUInt32.toNat)
    | _ => none

namespace Texture

/-- The name of a texture is that of a sampler, if the texture is sampled or looked up at one of
some slots. -/
def namesSampler (slots : List Nat) (t : Texture) : Bool :=
  t.dimension.samplerSuffix?.isSome || slots.any t.covers

/-- A texture without its name, where this names no sampler. -/
def unnamed (slots : List Nat) (t : Texture) : Texture :=
  if t.namesSampler slots then t else { t with name := "" }

/-- Without its name a texture is at the same slots. -/
theorem covers_unnamed (slots : List Nat) (t : Texture) : (t.unnamed slots).covers = t.covers := by
  unfold unnamed
  split <;> rfl

/-- And ends where it ended. -/
theorem endStep_unnamed (slots : List Nat) (t : Texture) :
    (t.unnamed slots).endStep = t.endStep := by
  unfold unnamed
  split <;> rfl

/-- And begins where it began. -/
theorem bindPoint_unnamed (slots : List Nat) (t : Texture) :
    (t.unnamed slots).bindPoint = t.bindPoint := by
  unfold unnamed
  split <;> rfl

/-- A texture that is looked up keeps its name. -/
theorem unnamed_of_covers {slots : List Nat} {slot : Nat} {t : Texture} (hslot : slot ∈ slots)
    (h : t.covers slot = true) : t.unnamed slots = t := by
  have hany : slots.any t.covers = true := List.any_eq_true.2 ⟨slot, hslot, h⟩
  rw [unnamed, namesSampler, hany, Bool.or_true, if_pos rfl]

end Texture

/-- What a search has looked at is told by the property that it looks for. -/
theorem lookedAt_map (p : β → Bool) (f : α → β) (l : List α) :
    lookedAt p (l.map f) = (lookedAt (fun a => p (f a)) l).map f := by
  induction l with
  | nil => rfl
  | cons a l ih =>
    simp only [List.map_cons, lookedAt]
    split
    · rfl
    · rw [ih]

/-- A search takes as many steps. -/
theorem searchSteps_eq {slots : List Nat}
    (h : ctx.textures.map (Texture.unnamed slots) = ctx'.textures.map (Texture.unnamed slots)) :
    Texture.searchSteps ctx.textures = Texture.searchSteps ctx'.textures := by
  have hunnamed (textures : List Texture) (slot : Nat) :
      Texture.searchSteps textures slot
        = Texture.searchSteps (textures.map (Texture.unnamed slots)) slot := by
    simp only [Texture.searchSteps, lookedAt_map, List.map_map, Texture.covers_unnamed]
    exact List.map_congr_left fun t _ => (Texture.endStep_unnamed slots t).symm
  funext slot
  rw [hunnamed, h, ← hunnamed]

/-- A search finds the same, at a slot at which a texture is looked up. -/
theorem find?_covers_eq {slots : List Nat}
    (h : ctx.textures.map (Texture.unnamed slots) = ctx'.textures.map (Texture.unnamed slots))
    {slot : Nat} (hslot : slot ∈ slots) :
    ctx.textures.find? (·.covers slot) = ctx'.textures.find? (·.covers slot) := by
  -- what covers the slot keeps its name
  have hunnamed (textures : List Texture) : (textures.find? (·.covers slot))
      = (textures.map (Texture.unnamed slots)).find? (·.covers slot) := by
    rw [List.find?_map]
    have hcovers : ((fun t : Texture => t.covers slot) ∘ Texture.unnamed slots)
        = fun t => t.covers slot := by
      funext t
      exact congrFun (Texture.covers_unnamed slots t) slot
    rw [hcovers]
    cases hfind : textures.find? (·.covers slot) with
    | none => rfl
    | some t =>
      have hcovers := List.find?_some hfind
      rw [Option.map_some, Texture.unnamed_of_covers hslot hcovers]
  rw [hunnamed, h, ← hunnamed]

/-- Textures that differ only by names that no sampler has are found alike. -/
theorem findAlike_of_unnamed_eq {slots : List Nat}
    (h : ctx.textures.map (Texture.unnamed slots) = ctx'.textures.map (Texture.unnamed slots))
    {resource : Operand}
    (hslot : ∀ register ∈ resource.register?, register.toUInt32.toNat ∈ slots) :
    FindAlike ctx ctx' resource := by
  unfold FindAlike lookup? lookupSteps
  cases hregister : resource.register? with
  | none => exact ⟨rfl, rfl⟩
  | some register =>
    have hfind := find?_covers_eq h (hslot register hregister)
    simp only [Option.bind_eq_bind, Option.bind_some, hfind, searchSteps_eq h, and_self]

/-! ### Bodies

The body is the statements of all instructions, each lowered where the ones in front have left off.
-/

/-- Two contexts find the same, apart from names of textures that no sampler has. -/
structure BodyContext.Agrees (slots : List Nat) (ctx ctx' : BodyContext) : Prop where
  context : ctx.context.Agrees ctx'.context
  textures : ctx.context.textures.map (Texture.unnamed slots)
    = ctx'.context.textures.map (Texture.unnamed slots)
  copies : ctx.copies = ctx'.copies
  usedTemps : ctx.usedTemps = ctx'.usedTemps

variable {slots : List Nat} {ctx ctx' : BodyContext}

/-- The slot at which an operation looks up a texture is among the listed ones. -/
theorem mem_lookedUpSlots {instructions : List Instruction} {head : OperationHead}
    {operands : List Operand} (hmem : .operation head operands ∈ instructions) {resource : Operand}
    (hresource : resource ∈ lookedUp? head operands) {register : UInt64}
    (hregister : register ∈ resource.register?) :
    register.toUInt32.toNat ∈ lookedUpSlots instructions := by
  refine List.mem_filterMap.2 ⟨_, hmem, ?_⟩
  simp only [Option.mem_def.1 hresource, Option.bind_some, Option.mem_def.1 hregister,
    Option.map_some]

/-- An instruction gives the same statements. -/
theorem entryStatements_eq (h : ctx.Agrees slots ctx') {i : Instruction}
    (hslots : lookedUpSlots [i] ⊆ slots) (s : BodyState) :
    entryStatements ctx s i = entryStatements ctx' s i := by
  cases i with
  | declaration d => rw [entryStatements, entryStatements, h.usedTemps]
  | operation head operands =>
    have hfind (resource : Operand) (hresource : resource ∈ lookedUp? head operands) :
        FindAlike ctx.context ctx'.context resource :=
      findAlike_of_unnamed_eq h.textures fun register hregister =>
        hslots (mem_lookedUpSlots (List.mem_singleton.2 rfl) hresource hregister)
    rw [entryStatements, entryStatements, h.copies]
    exact operation_eq h.context hfind _ _
  | customData data => cases data <;> rfl
  | unknown number words => rfl

/-- So do all instructions. -/
theorem entriesStatements_eq (h : ctx.Agrees slots ctx') {instructions : List Instruction}
    (hslots : lookedUpSlots instructions ⊆ slots) (s : BodyState) :
    entriesStatements ctx s instructions = entriesStatements ctx' s instructions := by
  induction instructions generalizing s with
  | nil => rfl
  | cons i rest ih =>
    have hsplit : lookedUpSlots (i :: rest) = lookedUpSlots [i] ++ lookedUpSlots rest :=
      List.filterMap_append (l := [i])
    rw [hsplit] at hslots
    obtain ⟨hi, hrest⟩ := List.append_subset.1 hslots
    simp only [entriesStatements, entryStatements_eq h hi, ih hrest]

/-- **Containers in which the same is found have the same body.** -/
theorem body_eq_of_agrees {program : Option Program}
    (h : ctx.Agrees (lookedUpSlots (program.toList.flatMap (·.instructions))) ctx')
    (prologue : List Assignment) : body ctx prologue program = body ctx' prologue program := by
  unfold body
  simp only [entriesStatements_eq h (List.Subset.refl _), h.copies, h.usedTemps]

end

end Glsl
end ShaderBytecode
