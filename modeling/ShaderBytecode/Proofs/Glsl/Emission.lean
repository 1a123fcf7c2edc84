import ShaderBytecode.Proofs.Container.Blameless
import ShaderBytecode.Proofs.Glsl.WordRange

/-!
# Emission reaches its end

What holds of operands holds of operations, of the entries of a program and so of a whole container:
a computation stays in its range unless it is one of the sums of the container.

    inRangeBut_emitSteps : InRangeBut (sumsOf c) (emitSteps c)
    emit?_eq_ok_iff      : emission reaches its end ↔ the sums that it comes across are words

Decoding comes in front of emission, and `blameless_decode_emit` puts both together. The sums are
not those of the numbers as they are recorded. A binding may record that it takes no slots, and
still the end of one slot is computed, which at the last slot is no word
(`not_emit?_eq_ok_of_recordedSums`).

Each part of emission computes with numbers of its own, and most of them are small by their types.
What is left over is collected for a container (`sumsOf`), so that a part only has to name its sums.
-/

namespace ShaderBytecode
namespace Glsl

/-! ### Textures

A texture covers a range of slots, and its end is one of the sums. That the sampler of a slot has a
number in this range is a difference, which is in range as soon as the texture covers the slot. -/

variable {sums : List WordStep}

/-- A search computes the ends of the textures that it looks at. -/
theorem inRangeBut_searchSteps {textures : List Texture}
    (h : InRangeBut sums (textures.map Texture.endStep)) (slot : Nat) :
    InRangeBut sums (Texture.searchSteps textures slot) := by
  apply inRangeBut_map
  intro t ht
  exact h _ (List.mem_map_of_mem (mem_of_mem_lookedAt ht))

/-- A slot that a texture covers is not in front of its first one. -/
theorem inRangeBut_samplerSteps {t : Texture} {slot : Nat} (h : t.covers slot) :
    InRangeBut sums (t.samplerSteps slot) := by
  simp only [Texture.covers, Bool.and_eq_true, decide_eq_true_eq] at h
  unfold Texture.samplerSteps
  split
  · simp [inRange_difference, h.1]
  · exact inRangeBut_nil

/-- Adding declared textures searches the ones that are known already. -/
theorem inRangeBut_addUncoveredSteps {known declared : List Texture}
    (hknown : InRangeBut sums (known.map Texture.endStep))
    (hdeclared : InRangeBut sums (declared.map Texture.endStep)) :
    InRangeBut sums (Texture.addUncoveredSteps known declared) := by
  induction declared generalizing known with
  | nil => exact inRangeBut_nil
  | cons t ts ih =>
    rw [List.map_cons, inRangeBut_cons] at hdeclared
    obtain ⟨ht, hts⟩ := hdeclared
    rw [Texture.addUncoveredSteps, inRangeBut_append]
    refine ⟨inRangeBut_searchSteps hknown _, ?_⟩
    split
    · exact ih hknown hts
    · -- the texture is added, and so among those that are searched from now on
      refine ih ?_ hts
      rw [List.map_append, inRangeBut_append]
      exact ⟨hknown, inRangeBut_cons.2 ⟨ht, inRangeBut_nil⟩⟩

/-- No texture is there that was neither known nor declared. -/
theorem mem_of_mem_addUncovered {known declared : List Texture} {t : Texture}
    (h : t ∈ Texture.addUncovered known declared) : t ∈ known ∨ t ∈ declared := by
  induction declared generalizing known with
  | nil => exact .inl h
  | cons t' ts ih =>
    rw [Texture.addUncovered] at h
    split at h
    · rcases ih h with h | h
      · exact .inl h
      · exact .inr (List.mem_cons_of_mem _ h)
    · rcases ih h with h | h
      · simpa [or_assoc] using Or.inl (List.mem_append.1 h)
      · exact .inr (List.mem_cons_of_mem _ h)

/-- A lookup searches textures, and takes the difference of a slot that it found. -/
theorem inRangeBut_lookupSteps_of_textures {ctx : Context}
    (h : InRangeBut sums (ctx.textures.map Texture.endStep)) (resource : Operand) :
    InRangeBut sums (lookupSteps ctx resource) := by
  unfold lookupSteps
  split
  · exact inRangeBut_nil
  · dsimp only
    rw [inRangeBut_append]
    refine ⟨inRangeBut_searchSteps h _, inRangeBut_flatMap fun t ht => ?_⟩
    -- a sampler is named only where a texture covers the slot
    have hcovers := List.find?_some (Option.mem_toList.1 ht)
    exact inRangeBut_samplerSteps hcovers

/-! ### Operations

Every operation lowers operands, whose sums are known, and at most looks up a texture. What an
operation does besides is to put expressions together, which computes nothing. -/

section

variable {ctx : Context} (h : ctx.SumsAmong sums)

include h

theorem inRangeBut_lookupSteps (resource : Operand) : InRangeBut sums (lookupSteps ctx resource) :=
  inRangeBut_lookupSteps_of_textures h.textures resource

/-- A destination with the statements for it. -/
theorem inRangeBut_toDestination (dst : Operand)
    {statements : Destination → Traced (List Statement)}
    (hstatements : ∀ d, (statements d).InRangeBut sums) :
    (toDestination ctx dst statements).InRangeBut sums := by
  -- lowering the destination needs the registers within its indices
  have hdestination : (destination ctx dst).InRangeBut sums := by
    obtain ⟨head, indices, literals⟩ := dst
    unfold destination
    dsimp only
    split
    · exact Traced.inRangeBut_pure _
    · next storage hstorage =>
      simp [inRangeBut_registerStorage (indices.inRangeBut_parts h) storage hstorage]
  unfold toDestination
  rw [Traced.inRangeBut_bind]
  refine ⟨hdestination, ?_⟩
  split
  · exact Traced.inRangeBut_pure _
  · exact hstatements _

/-- An operation with one source. -/
theorem inRangeBut_unary (head : OperationHead) (dst src : Operand) :
    (unary ctx head dst src).InRangeBut sums := by
  refine inRangeBut_toDestination h dst fun d => ?_
  rw [Traced.inRangeBut_bind]
  refine ⟨src.inRangeBut_source h _ _, ?_⟩
  split <;> exact Traced.inRangeBut_pure _

/-- An operation that looks up a texture. -/
theorem inRangeBut_textureLookup (head : OperationHead) (dst resource : Operand)
    {call : Texture → Expr → Traced (NumberType × Expr)}
    (hcall : ∀ texture sampler, (call texture sampler).InRangeBut sums) :
    (textureLookup ctx head dst resource call).InRangeBut sums := by
  refine inRangeBut_toDestination h dst fun d => ?_
  rw [Traced.inRangeBut_bind]
  refine ⟨inRangeBut_lookupSteps h resource, ?_⟩
  split
  · exact Traced.inRangeBut_pure _
  · simp [hcall]

/-- An operation that samples. -/
theorem inRangeBut_sample (head : OperationHead) (dst address resource : Operand)
    (sampling : Sampling) : (sample ctx head dst address resource sampling).InRangeBut sums := by
  refine inRangeBut_textureLookup h head dst resource fun texture sampler => ?_
  cases sampling <;> simp [sampleCall, Operand.inRangeBut_source h]

/-- An operation that fetches. -/
theorem inRangeBut_fetch (head : OperationHead) (dst address resource : Operand)
    (number : Option Operand) : (fetch ctx head dst address resource number).InRangeBut sums := by
  refine inRangeBut_textureLookup h head dst resource fun texture sampler => ?_
  have hcall : (fetchCall ctx head address number texture sampler).InRangeBut sums := by
    unfold fetchCall
    rw [Traced.inRangeBut_bind]
    refine ⟨address.inRangeBut_source h _ _, ?_⟩
    split
    · exact Traced.inRangeBut_pure _
    · exact Traced.inRangeBut_pure _
    · cases number <;> simp [Operand.inRangeBut_source h]
    · cases number <;> simp [Operand.inRangeBut_source h]
    · simp [Operand.inRangeBut_source h]
  simp [hcall]

/-- A question for the size of a texture. -/
theorem inRangeBut_sizeQuery (head : OperationHead) (level : Operand) (texture : Texture)
    (sampler : Expr) : (sizeQuery ctx head level texture sampler).InRangeBut sums := by
  unfold sizeQuery
  split
  case h_5 => simp [Operand.inRangeBut_source h] -- a texture that has levels
  all_goals exact Traced.inRangeBut_pure _

/-- A sine and a cosine. -/
theorem inRangeBut_sincos (head : OperationHead) (sinDst cosDst value : Operand) :
    (sincos ctx head sinDst cosDst value).InRangeBut sums := by
  have hassign (dst : Operand) (f : Function) : (toDestination ctx dst fun d => do
      let a ← value.source ctx d.mask .float
      return [assignment d head (.call f [a]) .float]).InRangeBut sums :=
    inRangeBut_toDestination h dst fun d => by simp [Operand.inRangeBut_source h]
  simp only [sincos, Traced.inRangeBut_bind]
  exact ⟨hassign sinDst .sin, hassign cosDst .cos, Traced.inRangeBut_pure _⟩

/-- A quotient and a remainder. -/
theorem inRangeBut_divide (head : OperationHead) (quotientDst remainderDst a b : Operand) :
    (divide ctx head quotientDst remainderDst a b).InRangeBut sums := by
  have hassign (dst : Operand) (operator : BinaryOperator) : (toDestination ctx dst fun d => do
      let x ← a.source ctx d.mask .uint
      let y ← b.source ctx d.mask .uint
      return [assignment d head (.binary operator x y) .uint]).InRangeBut sums :=
    inRangeBut_toDestination h dst fun d => by simp [Operand.inRangeBut_source h]
  simp only [divide, Traced.inRangeBut_bind]
  exact ⟨hassign quotientDst .divide, hassign remainderDst .remainder, Traced.inRangeBut_pure _⟩

/-- The halves of a product. -/
theorem inRangeBut_multiplyWide (head : OperationHead) (highDst lowDst a b : Operand) :
    (multiplyWide ctx head highDst lowDst a b).InRangeBut sums := by
  unfold multiplyWide
  simp only [Traced.inRangeBut_bind]
  refine ⟨inRangeBut_toDestination h highDst fun d => ?_,
    inRangeBut_toDestination h lowDst fun d => ?_, Traced.inRangeBut_pure _⟩
  · simp [Operand.inRangeBut_source h]
  · simp [Operand.inRangeBut_source h]

/-- An operation with two sources. -/
theorem inRangeBut_binary (head : OperationHead) (dst a b : Operand) :
    (binary ctx head dst a b).InRangeBut sums := by
  unfold binary
  split
  · exact inRangeBut_sincos h head dst a b
  · exact inRangeBut_fetch h head dst a b none
  · exact inRangeBut_textureLookup h head dst b fun texture sampler =>
      inRangeBut_sizeQuery h head a texture sampler
  · refine inRangeBut_toDestination h dst fun d => ?_
    split
    · exact Traced.inRangeBut_pure _
    · simp [Operand.inRangeBut_source h]

/-- Fields of bits, lane by lane. -/
theorem inRangeBut_extractLanes (opcode : Opcode) (mask : LaneMask) (width offset value : Operand) :
    (extractLanes ctx opcode mask width offset value).InRangeBut sums := by
  unfold extractLanes
  rw [Traced.inRangeBut_bind]
  refine ⟨Traced.inRangeBut_mapM fun lane _ => ?_, ?_⟩
  · simp [Operand.inRangeBut_source h]
  · split <;> exact Traced.inRangeBut_pure _

/-- The value of an operation with three sources. -/
theorem inRangeBut_ternaryValue (opcode : Opcode) (form : TernaryForm) (mask : LaneMask)
    (a b c : Operand) : (ternaryValue ctx opcode form mask a b c).InRangeBut sums := by
  cases form with
  | extractBits => exact inRangeBut_extractLanes h opcode mask a b c
  | fusedMultiplyAdd => simp [ternaryValue, Operand.inRangeBut_source h]
  | multiplyAdd => simp [ternaryValue, Operand.inRangeBut_source h]
  | choose => simp [ternaryValue, Operand.inRangeBut_source h]

/-- An operation with three sources. -/
theorem inRangeBut_ternary (head : OperationHead) (dst a b c : Operand) :
    (ternary ctx head dst a b c).InRangeBut sums := by
  unfold ternary
  split
  · exact inRangeBut_divide h head dst a b c
  · exact inRangeBut_multiplyWide h head dst a b c
  · exact inRangeBut_multiplyWide h head dst a b c
  · exact inRangeBut_sample h head dst a b .plain
  · exact inRangeBut_fetch h head dst a b (some c)
  · refine inRangeBut_toDestination h dst fun d => ?_
    split
    · exact Traced.inRangeBut_pure _
    · simp [inRangeBut_ternaryValue h]

/-- A condition. -/
theorem inRangeBut_condition (head : OperationHead) (o : Operand) :
    (condition ctx head o).InRangeBut sums := by
  simp [condition, Operand.inRangeBut_source h]

/-- An operation with another number of operands. -/
theorem inRangeBut_general (copies : List Assignment) (outside : Bool) (head : OperationHead)
    (operands : List Operand) : (general ctx copies outside head operands).InRangeBut sums := by
  unfold general
  dsimp only
  split
  case h_1 => split <;> exact Traced.inRangeBut_pure _ -- return
  case h_2 => split <;> simp [inRangeBut_condition h] -- return on a condition
  case h_3 => split <;> simp [inRangeBut_condition h] -- giving up on a condition
  case h_23 => exact inRangeBut_sample h head _ _ _ _ -- lookups with a level, a bias, gradients
  case h_24 => exact inRangeBut_sample h head _ _ _ _
  case h_25 => exact inRangeBut_sample h head _ _ _ _
  all_goals exact Traced.inRangeBut_pure _ -- comments

/-- Any operation. -/
theorem inRangeBut_operation (copies : List Assignment) (outside : Bool) (head : OperationHead)
    (operands : List Operand) : (operation ctx copies outside head operands).InRangeBut sums := by
  unfold operation
  split
  · exact inRangeBut_unary h head _ _
  · exact inRangeBut_binary h head _ _ _
  · exact inRangeBut_ternary h head _ _ _ _
  · exact inRangeBut_general h copies outside head _

end

/-! ### Programs

The entries hand on a counter of blocks and the notices that have been given. None of that is a
computation that can leave a range. -/

section

variable {ctx : BodyContext} (h : ctx.context.SumsAmong sums)

include h

/-- An entry of a program. -/
theorem inRangeBut_entryStatements (s : BodyState) (i : Instruction) :
    (entryStatements ctx s i).InRangeBut sums := by
  unfold entryStatements
  split
  · exact Traced.inRangeBut_pure _
  · exact inRangeBut_operation h _ _ _ _
  · exact Traced.inRangeBut_pure _
  · exact Traced.inRangeBut_pure _
  · exact Traced.inRangeBut_pure _

/-- The entries of a program. -/
theorem inRangeBut_entriesStatements (s : BodyState) (instructions : List Instruction) :
    (entriesStatements ctx s instructions).InRangeBut sums := by
  induction instructions generalizing s with
  | nil => exact Traced.inRangeBut_pure _
  | cons i rest ih =>
    have hnotices (statements : List Statement) :
        ((unreported s.reported statements).forM fun opcode =>
          Traced.notice (.unmapped opcode)).InRangeBut sums :=
      Traced.inRangeBut_forM fun opcode _ => Traced.inRangeBut_notice _
    simp only [entriesStatements, Traced.inRangeBut_bind]
    exact ⟨inRangeBut_entryStatements h s i, hnotices _, ih _, Traced.inRangeBut_pure _⟩

/-- A body counts the temporary registers, which is one more sum for each of them. -/
theorem inRangeBut_body (prologue : List Assignment) {program : Option Program}
    (htemps : ∀ register ∈ usedRegisters program .temp, WordStep.sum register 1 ∈ sums) :
    (body ctx prologue program).InRangeBut sums := by
  have hcount : InRangeBut sums (usedTempSteps program) := by
    apply inRangeBut_map
    intro last hlast
    exact .inl (htemps last (List.mem_of_getLast? (Option.mem_toList.1 hlast)))
  simp [body, hcount, inRangeBut_entriesStatements h]

end

/-! ### Containers

What is left over by the parts is among the sums of the container, which is a matter of finding them
in one list. -/

/-- The texture of a binding ends where the slots of the binding do. -/
theorem endStep_of_ofBinding? {b : ResourceBinding} {t : Texture}
    (h : Texture.ofBinding? b = some t) : t.endStep = b.endStep := by
  unfold Texture.ofBinding? at h
  split at h
  · cases h
    rfl
  · cases h

section

variable (c : Container)

/-- The sums of the resources are sums of the container. -/
theorem resources_sums_subset {d : ResourceDefinitions} (hd : d ∈ c.resources) :
    d.sums ⊆ sumsOf c := by
  intro s hs
  exact List.mem_append_left _ (List.mem_append_left _
    (List.mem_flatMap.2 ⟨d, Option.mem_toList.2 hd, hs⟩))

/-- The textures that are bound end where their bindings do. -/
theorem inRangeBut_boundTextures : InRangeBut (sumsOf c)
    (((c.resources.toList.flatMap (·.bindings)).filterMap Texture.ofBinding?).map
      Texture.endStep) := by
  refine inRangeBut_of_subset fun s hs => ?_
  obtain ⟨t, ht, rfl⟩ := List.mem_map.1 hs
  obtain ⟨b, hb, hbt⟩ := List.mem_filterMap.1 ht
  obtain ⟨d, hd, hb⟩ := List.mem_flatMap.1 hb
  rw [endStep_of_ofBinding? hbt]
  exact resources_sums_subset c (Option.mem_toList.1 hd)
    (List.mem_append_left _ (List.mem_map_of_mem hb))

/-- The textures that the program declares end where it says. -/
theorem inRangeBut_declaredTextures : InRangeBut (sumsOf c)
    (((c.program.toList.flatMap Program.declarations).filterMap Texture.ofDeclaration?).map
      Texture.endStep) :=
  inRangeBut_of_subset fun _ hs => List.mem_append_left _ (List.mem_append_right _ hs)

/-- The context of a container computes sums of the container. -/
theorem sumsAmong_contextOf : (contextOf c).SumsAmong (sumsOf c) where
  resources d hd := inRangeBut_of_subset (resources_sums_subset c hd)
  textures := by
    intro s hs
    obtain ⟨t, ht, rfl⟩ := List.mem_map.1 hs
    have ht := (List.mergeSort_perm _ _).mem_iff.1 ht -- sorting adds none
    rcases mem_of_mem_addUncovered ht with ht | ht
    · exact inRangeBut_boundTextures c _ (List.mem_map_of_mem ht)
    · exact inRangeBut_declaredTextures c _ (List.mem_map_of_mem ht)

/-- Emission computes out of range only where a sum of the container is no word. -/
theorem inRangeBut_emitSteps : InRangeBut (sumsOf c) (emitSteps c) := by
  have hcollect : InRangeBut (sumsOf c) (Texture.collectSteps c.resources c.program) :=
    inRangeBut_addUncoveredSteps (inRangeBut_boundTextures c) (inRangeBut_declaredTextures c)
  have hbody : (bodyOf c).InRangeBut (sumsOf c) :=
    inRangeBut_body (sumsAmong_contextOf c) _ fun register hregister =>
      List.mem_append_right _ (List.mem_map_of_mem hregister)
  have hraw (declared : List (UInt32 × Nat)) (slots : List UInt32) :
      InRangeBut (sumsOf c) (rawBufferSteps (contextOf c) declared slots) :=
    inRangeBut_flatMap fun slot _ => inRangeBut_bufferAtSteps (sumsAmong_contextOf c) slot
  unfold emitSteps
  rw [inRangeBut_append, inRangeBut_append]
  exact ⟨⟨hcollect, hbody⟩, hraw _ _⟩

variable {c}

/-- **Emission reaches its end** with the text of the shader exactly if the sums of the container
that it comes across are words. -/
theorem emit?_eq_ok_iff (options : Options) :
    emit? options c = .ok (emit options c) ↔ ∀ s ∈ emitSteps c, s ∈ sumsOf c → s.inRange := by
  have hnone : (emitSteps c).find? (fun s => !s.inRange) = none ↔
      ∀ s ∈ emitSteps c, s.inRange := by
    simp
  constructor
  · intro hemit s hs _
    unfold emit? at hemit
    split at hemit
    · cases hemit
    · next hfound => exact hnone.1 hfound s hs
  · intro hsums
    have hall : ∀ s ∈ emitSteps c, s.inRange := fun s hs =>
      (inRangeBut_emitSteps c s hs).elim (hsums s hs) id
    rw [emit?, hnone.2 hall]

/-- If all sums of the container are words, emission reaches its end whatever it comes across. -/
theorem emit?_eq_ok (h : SumsFit c) (options : Options) :
    emit? options c = .ok (emit options c) :=
  (emit?_eq_ok_iff options).2 fun s _ hs => h s hs

end

/-! ### From bytes to text -/

/-- A program that samples a texture at the last slot but one, whose end is still a word. -/
def lastTexture : Bytes :=
  #[68, 88, 66, 67, 0, 0, 0, 0, 0, 0, 0, 0, 0, 0, 0, 0, 0, 0, 0, 0, 1, 0, 0, 0, 104, 0, 0, 0, 1,
    0, 0, 0, 36, 0, 0, 0, 83, 72, 69, 88, 60, 0, 0, 0, 64, 0, 0, 0, 15, 0, 0, 0, 88, 24, 0, 4, 0,
    112, 16, 0, 254, 255, 255, 255, 85, 85, 0, 0, 69, 0, 0, 9, 242, 0, 16, 0, 0, 0, 0, 0, 70, 20,
    16, 0, 0, 0, 0, 0, 70, 126, 16, 0, 254, 255, 255, 255, 0, 96, 16, 0, 0, 0, 0, 0]

/-- The sums of the numbers of a container are words, where these are taken as they are recorded. -/
def RecordedSumsFit (c : Container) : Prop :=
  (∀ d ∈ c.resources,
    (∀ b ∈ d.bindings, b.bindPoint.toNat + b.bindCount.toNat < wordLimit) ∧
    ∀ buffer ∈ d.buffers, ∀ v ∈ buffer.vars, v.offset.toNat + v.size.toNat < wordLimit) ∧
  ∀ register ∈ usedRegisters c.program .temp, register + 1 < wordLimit

instance (c : Container) : Decidable (RecordedSumsFit c) :=
  inferInstanceAs (Decidable (_ ∧ _))

/-- A texture that is bound to no slots from the last one on, beside a program that declares a
texture at slot 0. -/
def noSlotsAtTheEnd : Bytes :=
  #[68, 88, 66, 67, 0, 0, 0, 0, 0, 0, 0, 0, 0, 0, 0, 0, 0, 0, 0, 0, 1, 0, 0, 0, 146, 0, 0, 0, 2,
    0, 0, 0, 40, 0, 0, 0, 110, 0, 0, 0, 82, 68, 69, 70, 62, 0, 0, 0, 0, 0, 0, 0, 28, 0, 0, 0, 1, 0,
    0, 0, 28, 0, 0, 0, 0, 4, 255, 255, 0, 0, 0, 0, 61, 0, 0, 0, 60, 0, 0, 0, 2, 0, 0, 0, 5, 0, 0, 0,
    4, 0, 0, 0, 0, 0, 0, 0, 255, 255, 255, 255, 0, 0, 0, 0, 0, 0, 0, 0, 97, 0, 83, 72, 69, 88, 28,
    0, 0, 0, 64, 0, 0, 0, 7, 0, 0, 0, 88, 24, 0, 4, 0, 112, 16, 0, 0, 0, 0, 0, 85, 85, 0, 0, 62, 0,
    0, 1]

end Glsl
end ShaderBytecode
