import ShaderBytecode.Glsl.Emit
import ShaderBytecode.Proofs.Resource.OffsetResolution

/-!
# Lowering operands stays within words

Emission computes with 32-bit words: it adds the number of slots of a resource to its first slot,
the size of a variable to its offset, and one to the last temporary register, and it subtracts where
it looks for the place of a slot or an offset. Operands are trees, and relative indices lower
operands within operands.

    Operand.inRangeBut_source : ctx.SumsAmong sums → (o.source ctx mask type).InRangeBut sums

Only sums depend on the container. A difference is taken behind a comparison, a component is a
remainder, and the byte offset of a row leaves room for its components. So whatever the container
is, a computation stays in its range unless it is one of a few sums, which `sumsOf` lists. A
resource takes one slot at least in these sums, and a variable four bytes, whatever is recorded of
them.
-/

namespace ShaderBytecode

/-! ### The sums

These are the sums whose operands come from the container. The list is written down once and for
all; what follows shows that emission forms no others that could leave the words. -/

/-- The end of the bytes of a variable. A variable takes four bytes at least. -/
def Variable.endStep (v : Variable) : WordStep := .sum v.offset.toNat (max v.size.toNat 4)

/-- The sums of the words of resource definitions: where the slots of bindings end, and where the
bytes of variables do. -/
def ResourceDefinitions.sums (d : ResourceDefinitions) : List WordStep :=
  d.bindings.map ResourceBinding.endStep
    ++ (d.buffers.flatMap (·.vars)).map Variable.endStep

theorem ResourceDefinitions.endStep_mem_sums {d : ResourceDefinitions} {buffer : ConstantBuffer}
    {v : Variable} (hbuffer : buffer ∈ d.buffers) (hv : v ∈ buffer.vars) : v.endStep ∈ d.sums :=
  List.mem_append_right _ (List.mem_map_of_mem (List.mem_flatMap.2 ⟨buffer, hbuffer, hv⟩))

namespace Glsl

/-- The sums of the words of a container: those of its resource definitions, the end of each texture
that the program declares, and the number behind each temporary register. -/
def sumsOf (c : Container) : List WordStep :=
  c.resources.toList.flatMap ResourceDefinitions.sums
    ++ ((c.program.toList.flatMap Program.declarations).filterMap
        Texture.ofDeclaration?).map Texture.endStep
    ++ (usedRegisters c.program .temp).map fun register => .sum register 1

/-- The sums of the words of a container are words. -/
def SumsFit (c : Container) : Prop := ∀ s ∈ sumsOf c, s.inRange

instance (c : Container) : Decidable (SumsFit c) :=
  inferInstanceAs (Decidable (∀ s ∈ sumsOf c, s.inRange))

/-! ### Computations

Computations are collected beside the value, so each part of emission has two things to say: the
value, which the other modules are about, and the list of steps, which this one is about. -/

/-- Every computation stays in its range. -/
def InRange (steps : List WordStep) : Prop := ∀ s ∈ steps, s.inRange

/-- Every computation stays in its range, unless it is one of some sums. -/
def InRangeBut (sums steps : List WordStep) : Prop := ∀ s ∈ steps, s ∈ sums ∨ s.inRange

theorem inRangeBut_nil_left {steps : List WordStep} : InRangeBut [] steps ↔ InRange steps := by
  simp [InRangeBut, InRange]

variable {sums : List WordStep}

@[simp] theorem inRangeBut_nil : InRangeBut sums [] := by
  simp [InRangeBut]

@[simp] theorem inRangeBut_cons {s : WordStep} {steps : List WordStep} :
    InRangeBut sums (s :: steps) ↔ (s ∈ sums ∨ s.inRange) ∧ InRangeBut sums steps := by
  simp [InRangeBut]

@[simp] theorem inRangeBut_append {steps steps' : List WordStep} :
    InRangeBut sums (steps ++ steps') ↔ InRangeBut sums steps ∧ InRangeBut sums steps' := by
  simp only [InRangeBut, List.mem_append, or_imp, forall_and]

/-- Some of the sums, and nothing else. -/
theorem inRangeBut_of_subset {steps : List WordStep} (h : steps ⊆ sums) : InRangeBut sums steps :=
  fun _ hs => .inl (h hs)

theorem inRangeBut_flatMap {f : α → List WordStep} {l : List α}
    (h : ∀ a ∈ l, InRangeBut sums (f a)) : InRangeBut sums (l.flatMap f) := by
  intro s hs
  obtain ⟨a, ha, hs⟩ := List.mem_flatMap.1 hs
  exact h a ha s hs

theorem inRangeBut_map {f : α → WordStep} {l : List α} (h : ∀ a ∈ l, f a ∈ sums ∨ (f a).inRange) :
    InRangeBut sums (l.map f) := by
  simpa [InRangeBut] using h

/-- The sums that lowering operands forms are among some given ones, or they are words. -/
structure Context.SumsAmong (ctx : Context) (sums : List WordStep) : Prop where
  resources : ∀ d ∈ ctx.resources, InRangeBut sums d.sums
  textures : InRangeBut sums (ctx.textures.map Texture.endStep)

theorem inRange_sum {a b : Nat} : (WordStep.sum a b).inRange ↔ a + b < wordLimit := by
  simp [WordStep.inRange]

theorem inRange_difference {a b : Nat} : (WordStep.difference a b).inRange ↔ b ≤ a := by
  simp [WordStep.inRange]

theorem inRange_component {position : Nat} :
    (WordStep.component position).inRange ↔ position < 4 := by
  rw [WordStep.inRange, WordStep.rowComponents, decide_eq_true_eq]

namespace Traced

/-- Every computation on the way stays in its range, unless it is one of some sums. -/
def InRangeBut (sums : List WordStep) (x : Traced α) : Prop := Glsl.InRangeBut sums x.steps

@[simp] theorem inRangeBut_pure (a : α) : (pure a : Traced α).InRangeBut sums := inRangeBut_nil

@[simp] theorem inRangeBut_bind {x : Traced α} {f : α → Traced β} :
    (x >>= f).InRangeBut sums ↔ x.InRangeBut sums ∧ (f x.value).InRangeBut sums := by
  rw [InRangeBut, steps_bind]
  exact inRangeBut_append

@[simp] theorem inRangeBut_map {x : Traced α} {f : α → β} :
    (f <$> x).InRangeBut sums ↔ x.InRangeBut sums := by
  rw [map_eq_pure_bind, inRangeBut_bind]
  exact and_iff_left (inRangeBut_pure _)

@[simp] theorem inRangeBut_notice (n : Notice) : (notice n).InRangeBut sums := inRangeBut_nil

@[simp] theorem inRangeBut_rawSlot (slot : UInt32) : (rawSlot slot).InRangeBut sums :=
  inRangeBut_nil

@[simp] theorem inRangeBut_compute {steps : List WordStep} :
    (compute steps).InRangeBut sums ↔ Glsl.InRangeBut sums steps := Iff.rfl

theorem inRangeBut_mapM {f : α → Traced β} {l : List α} (h : ∀ a ∈ l, (f a).InRangeBut sums) :
    (l.mapM f).InRangeBut sums := by
  induction l with
  | nil => simp
  | cons a l ih =>
    rw [List.mapM_cons]
    rw [List.forall_mem_cons] at h
    simp [h.1, ih h.2]

theorem inRangeBut_forM {f : α → Traced PUnit} {l : List α} (h : ∀ a ∈ l, (f a).InRangeBut sums) :
    (l.forM f).InRangeBut sums := by
  induction l with
  | nil => exact inRangeBut_pure _
  | cons a l ih =>
    rw [List.forall_mem_cons] at h
    exact inRangeBut_bind.2 ⟨h.1, ih h.2⟩

end Traced

/-! ### Buffers

Finding the member at an offset takes three steps. The end of the variable is one of the sums; the
difference is taken because the variable starts at or in front of the offset; and the component is a
remainder by four. -/

/-- A variable is found at or in front of the offset, and a component within its row. -/
theorem of_resolve_eq_ok {buffer : ConstantBuffer} {offset : Nat} {r : ResolvedOffset}
    (h : buffer.resolve offset = .ok r) :
    r.found ∈ buffer.vars ∧ r.found.offset.toNat ≤ offset ∧ r.component < 4 := by
  obtain ⟨-, hfound, -, hcomponent⟩ := ResourceDefinitions.resolve_eq_ok_iff.1 h
  have hmem := List.mem_of_getLast? hfound
  have hle : r.found.offset.toNat ≤ offset := by
    simpa using List.all_eq_true.1 List.all_takeWhile r.found hmem
  refine ⟨(List.takeWhile_sublist _).mem hmem, hle, ?_⟩
  have : (offset - r.found.offset.toNat) % 16 < 16 := Nat.mod_lt _ (by decide)
  omega

/-- The steps of naming the member at an offset. The end of the variable is a sum of the
definitions; the place within it is not in front of it, and the component not behind its row. -/
theorem inRangeBut_resolveSteps {d : ResourceDefinitions} (h : InRangeBut sums d.sums)
    {buffer : ConstantBuffer} (hbuffer : buffer ∈ d.buffers) (offset : Nat) :
    InRangeBut sums (Access.resolveSteps buffer offset) := by
  unfold Access.resolveSteps
  split
  · exact inRangeBut_nil
  · next r hr =>
    obtain ⟨hmem, hle, hcomponent⟩ := of_resolve_eq_ok hr
    have hsum : r.found.endStep ∈ sums ∨ r.found.endStep.inRange :=
      h _ (ResourceDefinitions.endStep_mem_sums hbuffer hmem)
    rw [Variable.endStep] at hsum
    dsimp only
    split <;> simp [inRange_difference, inRange_component, hle, hsum, hcomponent]

/-- Where a row begins at a word, its components do so too. -/
theorem of_componentOffset?_eq_some {components : Components} {row : UInt64} {lane : Lane}
    {offset within : Nat} (h : componentOffset? components row lane = some (offset, within)) :
    offset + within < wordLimit := by
  unfold componentOffset? at h
  cases hlane : components.laneSource? lane.val with
  | none => simp [hlane] at h
  | some component =>
    simp only [hlane, Option.bind_eq_bind, Option.bind_some] at h
    split at h
    · cases h
    · cases h
      -- the offset of a row is a multiple of sixteen, so that twelve bytes more are still a word
      have := component.isLt
      simp only [ConstantBuffer.rowBytes, componentBytes, wordLimit] at *
      omega

theorem inRangeBut_bufferAccessesSteps {d : ResourceDefinitions} (h : InRangeBut sums d.sums)
    {buffer : ConstantBuffer} (hbuffer : buffer ∈ d.buffers) (components : Components)
    (lanes : List Lane) (row : UInt64) (dynamic : Bool) :
    InRangeBut sums (bufferAccessesSteps buffer components lanes row dynamic) := by
  apply inRangeBut_flatMap
  intro lane _
  unfold bufferAccessSteps
  split
  · exact inRangeBut_nil
  · next hoffset =>
    rw [inRangeBut_cons, inRange_sum]
    exact ⟨.inr (of_componentOffset?_eq_some hoffset), inRangeBut_resolveSteps h hbuffer _⟩

section

variable {ctx : Context} (h : ctx.SumsAmong sums)

include h

theorem inRangeBut_bufferAtSteps (slot : UInt32) : InRangeBut sums (ctx.bufferAtSteps slot) := by
  apply inRangeBut_flatMap
  intro d hd
  apply inRangeBut_map
  intro b hb
  have hmem : b ∈ d.bindings := mem_of_mem_lookedAt (List.mem_filter.1 hb).1
  exact h.resources d (Option.mem_toList.1 hd) _
    (List.mem_append_left _ (List.mem_map_of_mem hmem))

omit h in
/-- A buffer that is bound at a slot is one of the definitions. -/
theorem of_bufferAt?_eq_some {slot : UInt32} {buffer : ConstantBuffer}
    (h : ctx.bufferAt? slot = some buffer) : ∃ d ∈ ctx.resources, buffer ∈ d.buffers := by
  obtain ⟨d, hd, h⟩ := Option.bind_eq_some_iff.1 h
  obtain ⟨binding, -, h⟩ := Option.bind_eq_some_iff.1 h
  exact ⟨d, hd, List.mem_of_find?_eq_some h⟩

/-! ### Operands

An index may hold a register, whose lowering has steps of its own. They are run when the index is
used, so a form is in range if the registers within its indices are. The trees are closed in the
mutual recursion at the end, which follows their constructors. -/

/-- Lowering the register within an index stays in range but for some sums. -/
def IndexPart.InRangeBut (sums : List WordStep) (i : IndexPart) : Prop :=
  ∀ base ∈ i.base, base.InRangeBut sums

omit h in
theorem IndexPart.inRangeBut_expr {i : IndexPart} (hi : i.InRangeBut sums) :
    i.expr.InRangeBut sums := by
  unfold IndexPart.expr
  split
  · simp
  · next base hbase => simpa using hi base hbase

omit h in
theorem IndexPart.inRangeBut_exprOrZero {i : Option IndexPart} (hi : ∀ j ∈ i, j.InRangeBut sums) :
    (exprOrZero i).InRangeBut sums := by
  cases i with
  | none => exact Traced.inRangeBut_pure _
  | some i => exact inRangeBut_expr (hi i rfl)

omit h in
theorem inRangeBut_registerStorage {file : RegisterFile} {indices : List IndexPart}
    (hindices : ∀ i ∈ indices, i.InRangeBut sums) :
    ∀ storage ∈ registerStorage ctx file indices, storage.InRangeBut sums := by
  intro storage hstorage
  unfold registerStorage at hstorage
  split at hstorage
  case h_1 => cases hstorage -- no register
  case h_2 => -- input, of which there may be one for each vertex
    dsimp only at hstorage
    split at hstorage
    · next vertex _ =>
      cases hstorage
      have hvertex : vertex.InRangeBut sums := hindices vertex (by simp)
      simp [IndexPart.inRangeBut_expr hvertex]
    · cases hstorage
      exact Traced.inRangeBut_pure _
  case h_4 => -- array of registers
    cases hstorage
    have hposition : (IndexPart.exprOrZero indices[1]?).InRangeBut sums :=
      IndexPart.inRangeBut_exprOrZero fun i hi => hindices i (List.mem_of_getElem? hi)
    simp [hposition]
  case h_5 => -- immediate buffer
    cases hstorage
    have hposition : (IndexPart.exprOrZero indices.head?).InRangeBut sums :=
      IndexPart.inRangeBut_exprOrZero fun i hi => hindices i (List.mem_of_mem_head? hi)
    simp [hposition]
  all_goals
    cases hstorage
    exact Traced.inRangeBut_pure _

omit h in
theorem inRangeBut_literalSource (literals : Option Literals) (mask : LaneMask)
    (type : NumberType) : (literalSource literals mask type).InRangeBut sums := by
  unfold literalSource
  split
  · simp
  · split <;> exact Traced.inRangeBut_pure _

theorem inRangeBut_rowSource (slot : UInt32) (components : Components) {row : IndexPart}
    (hrow : row.InRangeBut sums) (base : Option Expr) (mask : LaneMask) (type : NumberType) :
    (rowSource ctx slot components row base mask type).InRangeBut sums := by
  have hsearch : InRangeBut sums (ctx.bufferAtSteps slot) := inRangeBut_bufferAtSteps h slot
  have haccess : InRangeBut sums ((ctx.bufferAt? slot).toList.flatMap fun b =>
      bufferAccessesSteps b components mask.lanes row.value base.isSome) := by
    apply inRangeBut_flatMap
    intro b hb
    -- a buffer that is found is one of the definitions, whose sums are given
    obtain ⟨d, hd, hb⟩ := of_bufferAt?_eq_some (Option.mem_toList.1 hb)
    exact inRangeBut_bufferAccessesSteps (h.resources d hd) hb _ _ _ _
  have hposition : row.expr.InRangeBut sums := IndexPart.inRangeBut_expr hrow
  unfold rowSource
  simp only [Traced.inRangeBut_bind, Traced.inRangeBut_compute]
  refine ⟨hsearch, haccess, ?_⟩
  split
  · exact Traced.inRangeBut_pure _
  · split <;> simp [hposition]

theorem inRangeBut_bufferSource (components : Components) {indices : List IndexPart}
    (hindices : ∀ i ∈ indices, i.InRangeBut sums) (mask : LaneMask) (type : NumberType) :
    (bufferSource ctx components indices mask type).InRangeBut sums := by
  unfold bufferSource
  dsimp only
  split
  · simp
  · next row hrow =>
    have hrow : row.InRangeBut sums := hindices row (List.mem_of_getElem? hrow)
    have hrest (base : Option Expr) := inRangeBut_rowSource h
      ((indices.head?.map IndexPart.value).getD 0).toUInt32 components hrow base mask.orFirst type
    split
    · simp [hrest]
    · next base hbase => simp [hrow base hbase, hrest]

theorem inRangeBut_unmodifiedSource (head : OperandHead) {indices : List IndexPart}
    (hindices : ∀ i ∈ indices, i.InRangeBut sums) (literals : Option Literals) (mask : LaneMask)
    (type : NumberType) :
    ∀ value ∈ unmodifiedSource ctx head indices literals mask type, value.InRangeBut sums := by
  intro value hvalue
  unfold unmodifiedSource at hvalue
  split at hvalue
  · cases hvalue
    exact inRangeBut_literalSource _ _ _
  · cases hvalue
    exact inRangeBut_literalSource _ _ _
  · cases hvalue
    exact inRangeBut_bufferSource h _ hindices _ _
  · obtain ⟨storage, hstorage, rfl⟩ := Option.map_eq_some_iff.1 hvalue
    simp [inRangeBut_registerStorage hindices storage hstorage]

theorem inRangeBut_sourceOf (head : OperandHead) {indices : List IndexPart}
    (hindices : ∀ i ∈ indices, i.InRangeBut sums) (literals : Option Literals) (mask : LaneMask)
    (type : NumberType) : (sourceOf ctx head indices literals mask type).InRangeBut sums := by
  unfold sourceOf
  split
  · exact Traced.inRangeBut_pure _
  · next value hvalue =>
    simp [inRangeBut_unmodifiedSource h head hindices literals mask type value hvalue]

end
end Glsl

open Glsl

mutual

/-- Lowering a source stays in range, whatever the tree of the operand. -/
theorem Operand.inRangeBut_source {ctx : Context} {sums : List WordStep}
    (h : ctx.SumsAmong sums) :
    ∀ (o : Operand) (mask : LaneMask) (type : NumberType), (o.source ctx mask type).InRangeBut sums
  | .mk head indices literals, mask, type => by
    rw [Operand.source]
    exact inRangeBut_sourceOf h head (indices.inRangeBut_parts h) literals mask type

theorem Indices.inRangeBut_parts {ctx : Context} {sums : List WordStep}
    (h : ctx.SumsAmong sums) :
    ∀ (indices : Indices), ∀ i ∈ indices.parts ctx, i.InRangeBut sums
  | .nil, _, hi => by
    rw [Indices.parts] at hi
    cases hi
  | .fixed _ value rest, i, hi => by
    rw [Indices.parts] at hi
    rcases List.mem_cons.1 hi with rfl | hi
    · rintro base ⟨⟩
    · exact rest.inRangeBut_parts h i hi
  | .relative _ value base rest, i, hi => by
    rw [Indices.parts] at hi
    rcases List.mem_cons.1 hi with rfl | hi
    · rintro _ ⟨⟩
      exact base.inRangeBut_source h _ _
    · exact rest.inRangeBut_parts h i hi

end

end ShaderBytecode
