import ShaderBytecode.Proofs.Glsl.Emission

/-!
# Slots of textures

The textures of resource definitions may overlap in any way. A program declares one slot at a time,
in any order and perhaps again and again, and each declaration asks whether its slot is covered by
what has been collected so far. What is added in the end depends on the slots only:

    exists_addUncovered_eq : ∃ added, addUncovered known declared = known ++ added ∧
      Fills known declared added

So an added texture is the only one at its slot, and sorting leaves it there. A lookup takes the
first texture that covers a slot and always finds an element within the array of that texture.
-/

namespace ShaderBytecode
namespace Glsl
namespace Texture

/-- The textures of resource definitions. -/
def bound (resources : Option ResourceDefinitions) : List Texture :=
  (resources.toList.flatMap (·.bindings)).filterMap ofBinding?

/-- The textures that a program declares, one for each declaration. -/
def declared (program : Option Program) : List Texture :=
  (program.toList.flatMap Program.declarations).filterMap ofDeclaration?

theorem covers_iff {t : Texture} {slot : Nat} :
    t.covers slot ↔ t.bindPoint ≤ slot ∧ slot < t.bindPoint + t.bindCount := by
  simp [covers]

theorem covers_iff_of_single {t : Texture} (h : t.bindCount = 1) {slot : Nat} :
    t.covers slot ↔ t.bindPoint = slot := by
  rw [covers_iff, h]
  omega

theorem bindCount_of_mem_declared {program : Option Program} {t : Texture}
    (h : t ∈ declared program) : t.bindCount = 1 := by
  obtain ⟨d, -, hd⟩ := List.mem_filterMap.1 h
  unfold ofDeclaration? at hd
  split at hd
  · obtain ⟨register, -, rfl⟩ := Option.map_eq_some_iff.1 hd
    rfl
  · cases hd

/-! ### What is added

The loop appends as it goes, so what is known grows and later declarations see the textures that
earlier ones added. The induction is over the declarations for an arbitrary list of known textures;
`Fills` says what is added in terms of the slots alone, so that the order of the declarations shows
only in its last field. -/

/-- Textures that fill the declared slots which `known` leaves: one for each such slot, the one that
is declared first. -/
structure Fills (known declared added : List Texture) : Prop where
  slots : ∀ slot, slot ∈ added.map (·.bindPoint) ↔
    slot ∈ declared.map (·.bindPoint) ∧ ∀ t ∈ known, ¬ t.covers slot
  nodup : (added.map (·.bindPoint)).Nodup
  first : ∀ t ∈ added, declared.find? (·.bindPoint == t.bindPoint) = some t

namespace Fills

variable {known declared added : List Texture} {t : Texture}

theorem slot_mem (h : Fills known declared added) {s : Texture} (hs : s ∈ added) :
    s.bindPoint ∈ declared.map (·.bindPoint) ∧ ∀ t ∈ known, ¬ t.covers s.bindPoint :=
  (h.slots _).1 (List.mem_map_of_mem hs)

/-- A declaration of a covered slot adds nothing. -/
theorem cons_covered (h : Fills known declared added) (ht : ∃ k ∈ known, k.covers t.bindPoint) :
    Fills known (t :: declared) added := by
  obtain ⟨k, hk, hcovers⟩ := ht
  refine ⟨fun slot => ?_, h.nodup, fun s hs => ?_⟩
  · rw [h.slots, List.map_cons, List.mem_cons, or_and_right]
    refine (or_iff_right ?_).symm
    rintro ⟨rfl, hfree⟩
    exact hfree k hk hcovers
  · -- an added texture has a free slot, so it is not the one of the new declaration
    have hne : t.bindPoint ≠ s.bindPoint := by
      intro heq
      exact (h.slot_mem hs).2 k hk (heq ▸ hcovers)
    rw [List.find?_cons_of_neg (by simpa using hne)]
    exact h.first s hs

/-- A declaration of a slot that is not covered adds its texture, which covers the slot from now
on. -/
theorem cons_free (h : Fills (known ++ [t]) declared added) (hsingle : t.bindCount = 1)
    (ht : ∀ k ∈ known, ¬ k.covers t.bindPoint) : Fills known (t :: declared) (t :: added) := by
  -- to leave a slot free now means to leave it free before and not to be the new one
  have hfree (slot : Nat) : (∀ k ∈ known ++ [t], ¬ k.covers slot) ↔
      (∀ k ∈ known, ¬ k.covers slot) ∧ t.bindPoint ≠ slot := by
    simp only [List.forall_mem_append, List.forall_mem_singleton, covers_iff_of_single hsingle,
      ne_eq]
  have hne (s : Texture) (hs : s ∈ added) : t.bindPoint ≠ s.bindPoint :=
    ((hfree _).1 (h.slot_mem hs).2).2
  refine ⟨fun slot => ?_, ?_, fun s hs => ?_⟩
  · -- the slots are those of before and the one of the new texture
    rw [List.map_cons, List.map_cons, List.mem_cons, List.mem_cons, h.slots, hfree, or_and_right]
    by_cases heq : t.bindPoint = slot
    · subst heq
      exact iff_of_true (.inl rfl) (.inl ⟨rfl, ht⟩)
    · simp [heq, Ne.symm heq]
  · rw [List.map_cons, List.nodup_cons]
    refine ⟨fun hmem => ?_, h.nodup⟩
    obtain ⟨s, hs, heq⟩ := List.mem_map.1 hmem
    exact hne s hs heq.symm
  · rcases List.mem_cons.1 hs with rfl | hs
    · exact List.find?_cons_of_pos (by simp)
    · rw [List.find?_cons_of_neg (by simpa using hne s hs)]
      exact h.first s hs

end Fills

theorem exists_addUncovered_eq {known declared : List Texture}
    (hsingle : ∀ t ∈ declared, t.bindCount = 1) :
    ∃ added, addUncovered known declared = known ++ added ∧ Fills known declared added := by
  induction declared generalizing known with
  | nil => exact ⟨[], by simp [addUncovered], by simp, by simp, by simp⟩
  | cons t ts ih =>
    rw [List.forall_mem_cons] at hsingle
    rw [addUncovered]
    split
    · -- covered: the list goes on with the same textures
      next hcovered =>
      obtain ⟨added, heq, hfills⟩ := ih hsingle.2
      exact ⟨added, heq, hfills.cons_covered (by simpa using hcovered)⟩
    · -- free: the rest is run with one texture more, and its hypothesis is about that list
      next hfree =>
      obtain ⟨added, heq, hfills⟩ := ih hsingle.2
      refine ⟨t :: added, by simpa using heq, hfills.cons_free hsingle.1 ?_⟩
      simpa using hfree

/-- Among textures at different slots a slot has no other texture than its own. -/
theorem filter_bindPoint_of_nodup {textures : List Texture}
    (h : (textures.map (·.bindPoint)).Nodup) {t : Texture} (ht : t ∈ textures) :
    textures.filter (·.bindPoint = t.bindPoint) = [t] := by
  induction textures with
  | nil => cases ht
  | cons s rest ih =>
    rw [List.map_cons, List.nodup_cons] at h
    obtain ⟨hs, hrest⟩ := h
    -- the texture itself, or one behind another slot
    rcases List.mem_cons.1 ht with rfl | ht
    · have hnone : rest.filter (·.bindPoint = t.bindPoint) = [] := by
        refine List.filter_eq_nil_iff.2 fun r hr heq => hs ?_
        exact of_decide_eq_true heq ▸ List.mem_map_of_mem hr
      rw [List.filter_cons_of_pos (by simp), hnone]
    · have hne : s.bindPoint ≠ t.bindPoint := by
        intro heq
        exact hs (heq ▸ List.mem_map_of_mem ht)
      rw [List.filter_cons_of_neg (by simpa using hne)]
      exact ih hrest ht

/-- Nothing else covers the slot of an added texture. -/
theorem Fills.filter_covers {known declared added : List Texture} (h : Fills known declared added)
    (hsingle : ∀ t ∈ added, t.bindCount = 1) {t : Texture} (ht : t ∈ added) :
    (known ++ added).filter (·.covers t.bindPoint) = [t] := by
  -- the known textures leave the slot free, by the first field
  have hknown : known.filter (·.covers t.bindPoint) = [] :=
    List.filter_eq_nil_iff.2 (h.slot_mem ht).2
  have hadded : added.filter (·.covers t.bindPoint) = added.filter (·.bindPoint = t.bindPoint) := by
    refine List.filter_congr fun s hs => ?_
    rw [Bool.eq_iff_iff, covers_iff_of_single (hsingle s hs), decide_eq_true_eq]
  rw [List.filter_append, hknown, List.nil_append, hadded, filter_bindPoint_of_nodup h.nodup ht]

/-- Every declared slot is covered in the end. -/
theorem Fills.exists_covers {known declared added : List Texture} (h : Fills known declared added)
    (hsingle : ∀ t ∈ added, t.bindCount = 1) {t : Texture} (ht : t ∈ declared) :
    ∃ s ∈ known ++ added, s.covers t.bindPoint := by
  by_cases hknown : ∃ s ∈ known, s.covers t.bindPoint
  · obtain ⟨s, hs, hcovers⟩ := hknown
    exact ⟨s, List.mem_append_left _ hs, hcovers⟩
  · have hslot : t.bindPoint ∈ added.map (·.bindPoint) := by
      refine (h.slots _).2 ⟨List.mem_map_of_mem ht, fun s hs hcovers => hknown ⟨s, hs, hcovers⟩⟩
    obtain ⟨s, hs, heq⟩ := List.mem_map.1 hslot
    exact ⟨s, List.mem_append_right _ hs, (covers_iff_of_single (hsingle s hs)).2 heq⟩

/-! ### Lookups

A lookup searches in ascending order. Ranges of definitions may overlap, in which case the first
range wins; the element is the distance from the start of that range, which lies within the array
because the range covers the slot. -/

end Texture

/-- A slot that some texture covers is found, with an element of the array. -/
theorem exists_lookup?_eq {ctx : Context} {o : Operand} {register : UInt64}
    (hregister : o.register? = some register)
    (h : ∃ t ∈ ctx.textures, t.covers register.toUInt32.toNat) :
    ∃ t ∈ ctx.textures,
      lookup? ctx o = some (t, t.samplerAt register.toUInt32.toNat) ∧
      t.bindPoint ≤ register.toUInt32.toNat ∧
      register.toUInt32.toNat - t.bindPoint < t.bindCount := by
  obtain ⟨t, hfind⟩ := Option.isSome_iff_exists.1 (List.find?_isSome.2 h)
  have hcovers := List.find?_some hfind
  obtain ⟨hle, hlt⟩ := Texture.covers_iff.1 hcovers
  refine ⟨t, List.mem_of_find?_eq_some hfind, ?_, hle, by omega⟩
  simp only [lookup?, hregister, hfind, Option.bind_eq_bind, Option.bind_some, Option.pure_def]

namespace Texture

/-! ### All textures

Sorting is stable and keeps all textures, so the statements about `bound ++ added` carry over to the
list that lookups search. -/

section

variable {resources : Option ResourceDefinitions} {program : Option Program}

theorem mem_collect {t : Texture} (h : t ∈ collect resources program) :
    t ∈ bound resources ∨ t ∈ declared program :=
  mem_of_mem_addUncovered ((List.mergeSort_perm _ _).mem_iff.1 h)

theorem pairwise_collect : (collect resources program).Pairwise (·.bindPoint ≤ ·.bindPoint) := by
  -- a merge sort needs the order as a function to `Bool`, total and transitive
  let le (a b : Texture) : Bool := a.bindPoint ≤ b.bindPoint
  have htrans (a b c : Texture) : le a b → le b c → le a c := by
    simpa [le] using Nat.le_trans
  have htotal (a b : Texture) : le a b || le b a := by
    simpa [le] using Nat.le_total _ _
  have hsorted := List.pairwise_mergeSort htrans htotal
    (addUncovered (bound resources) (declared program))
  exact hsorted.imp of_decide_eq_true

/-- **The slots of textures are covered without conflict.** If no range ends behind the last word,
the textures are those of the definitions, each once, and one for each declared slot that none of
these covers, in ascending order. Every declared slot is covered, nothing else covers the slot of an
added texture, and a slot that is covered is looked up as an element within the array. -/
theorem collect_covers (hbound : ∀ t ∈ bound resources, t.bindPoint + t.bindCount < wordLimit)
    (hdeclared : ∀ t ∈ declared program, t.bindPoint + t.bindCount < wordLimit) :
    InRange (collectSteps resources program) ∧
    (collect resources program).Pairwise (·.bindPoint ≤ ·.bindPoint) ∧
    (∃ added,
      (collect resources program).Perm (bound resources ++ added) ∧
      Fills (bound resources) (declared program) added ∧
      (∀ t ∈ added, t.bindCount = 1) ∧
      ∀ t ∈ added, (collect resources program).filter (·.covers t.bindPoint) = [t]) ∧
    (∀ t ∈ declared program, ∃ s ∈ collect resources program, s.covers t.bindPoint) ∧
    ∀ ctx : Context, ctx.textures = collect resources program →
      ∀ o : Operand, ∀ register, o.register? = some register →
        (∃ t ∈ ctx.textures, t.covers register.toUInt32.toNat) →
        InRange (lookupSteps ctx o) ∧
        ∃ t ∈ ctx.textures,
          lookup? ctx o = some (t, t.samplerAt register.toUInt32.toNat) ∧
          t.bindPoint ≤ register.toUInt32.toNat ∧
          register.toUInt32.toNat - t.bindPoint < t.bindCount := by
  have hdeclaredSingle (t : Texture) (ht : t ∈ declared program) : t.bindCount = 1 :=
    bindCount_of_mem_declared ht
  obtain ⟨added, hadd, hfills⟩ : ∃ added,
      addUncovered (bound resources) (declared program) = bound resources ++ added ∧
      Fills (bound resources) (declared program) added :=
    exists_addUncovered_eq hdeclaredSingle
  -- sorting keeps the textures
  have hperm : (collect resources program).Perm (bound resources ++ added) :=
    (List.mergeSort_perm _ _).trans (.of_eq hadd)
  have hsingle (t : Texture) (ht : t ∈ added) : t.bindCount = 1 :=
    hdeclaredSingle t (List.mem_of_find?_eq_some (hfills.first t ht))
  have hends (t : Texture) (ht : t ∈ collect resources program) :
      t.bindPoint + t.bindCount < wordLimit :=
    (mem_collect ht).elim (hbound t) (hdeclared t)
  have hinRange {textures : List Texture}
      (h : ∀ t ∈ textures, t.bindPoint + t.bindCount < wordLimit) :
      InRangeBut [] (textures.map endStep) :=
    inRangeBut_map fun t ht => .inr (inRange_sum.2 (h t ht))
  have hcollect : InRange (collectSteps resources program) :=
    inRangeBut_nil_left.1 (inRangeBut_addUncoveredSteps (hinRange hbound) (hinRange hdeclared))
  refine ⟨hcollect, pairwise_collect,
    ⟨added, hperm, hfills, hsingle, fun t ht => ?_⟩, fun t ht => ?_,
    fun ctx hctx o register hregister hcovered => ⟨?_, exists_lookup?_eq hregister hcovered⟩⟩
  · have honly := hperm.filter (·.covers t.bindPoint)
    rw [hfills.filter_covers hsingle ht] at honly
    exact List.perm_singleton.1 honly
  · obtain ⟨s, hs, hcovers⟩ := hfills.exists_covers hsingle ht
    exact ⟨s, hperm.mem_iff.2 hs, hcovers⟩
  · exact inRangeBut_nil_left.1
      (inRangeBut_lookupSteps_of_textures (hinRange (hctx ▸ hends)) o)

end

/-- Two textures of definitions, at the slots 0 to 2 and 2 to 3. -/
def overlapping : ResourceDefinitions :=
  let binding (name : String) (kind : BindingKind) (slot count : UInt32) : ResourceBinding :=
    ⟨name, kind, .float, .texture2D, 0, slot, count, 0⟩
  ⟨5, 0, .pixel, 0, "", none, [],
    [binding "b" .texture 2 2, binding "s" .sampler 4 1, binding "a" .texture 0 3]⟩

/-- The declaration of a texture at a slot. -/
def declarationAt (slot : UInt64) (dimension : Dimension) : Declaration :=
  .resource (.mk ⟨0, .resource, .zero, .none, .full, false⟩ (.fixed .immediate32 slot .nil) none)
    dimension 0 ⟨.float, .float, .float, .float⟩

/-- A program that declares the slots 9, 3, 4 and again 9. -/
def declaredTwice : Program :=
  ⟨5, 0, .pixel, [declarationAt 9 .texture2D, declarationAt 3 .texture2D,
    declarationAt 4 .texture3D, declarationAt 9 .textureCube].map .declaration⟩

/-- The slots 9 and 4 are added, slot 9 as it is declared first. -/
theorem collect_covers_overlapping :
    ∃ added,
      (collect (some overlapping) (some declaredTwice)).Perm
        ([⟨"b", 2, 2, .texture2D, .float⟩, ⟨"a", 0, 3, .texture2D, .float⟩] ++ added) ∧
      (∀ slot, slot ∈ added.map (·.bindPoint) ↔ slot = 9 ∨ slot = 4) ∧
      ∀ t ∈ added, t.bindPoint = 9 → t = ⟨"t9", 9, 1, .texture2D, .float⟩ := by
  have hbound : bound (some overlapping) =
      [⟨"b", 2, 2, .texture2D, .float⟩, ⟨"a", 0, 3, .texture2D, .float⟩] := by decide
  have hdeclared : declared (some declaredTwice) =
      [⟨"t9", 9, 1, .texture2D, .float⟩, ⟨"t3", 3, 1, .texture2D, .float⟩,
        ⟨"t4", 4, 1, .texture3D, .float⟩, ⟨"t9", 9, 1, .textureCube, .float⟩] := by decide +kernel
  have hboundEnds : ∀ t ∈ bound (some overlapping), t.bindPoint + t.bindCount < wordLimit := by
    rw [hbound]
    decide
  have hdeclaredEnds :
      ∀ t ∈ declared (some declaredTwice), t.bindPoint + t.bindCount < wordLimit := by
    rw [hdeclared]
    decide
  obtain ⟨-, -, ⟨added, hperm, hfills, -⟩, -⟩ := collect_covers hboundEnds hdeclaredEnds
  refine ⟨added, hbound ▸ hperm, fun slot => ?_, fun t ht hslot => ?_⟩
  · rw [hfills.slots, hbound, hdeclared]
    simp [covers]
    omega
  · have hfirst := hfills.first t ht
    rw [hdeclared, hslot] at hfirst
    exact (Option.some.inj hfirst).symm

end Texture
end Glsl
end ShaderBytecode
