import Mathlib.Data.List.Basic
import ShaderBytecode.Proofs.Resource.Decoding

/-!
# The variable at an offset

A byte of a constant buffer belongs to the last variable that begins at or in front of it. Resolving
an offset looks for it at the front of the list of variables and stops at the first one that begins
behind the offset. That is enough because decoding has sorted the variables:

    getLast?_takeWhile_eq_some_iff : of elements sorted by a key, the last one in front of the first
                                     whose key is above a bound has the greatest key up to the bound
    resolve_recorded               : an offset is resolved to the variable of the greatest offset up
                                     to it, whatever the order of the records

Records may share an offset. Sorting keeps their order, so that the last record counts.

The proof is in two parts. What sorting does to a list is said for elements with any key, and then
bytes of a constant buffer are counted in rows of sixteen and components of four.
-/

namespace ShaderBytecode
namespace ResourceDefinitions

/-! ### The front of a sorted list

Two things are asked for at once, the greatest key and the last of those that have it. In a list
that was sorted stably both are the last element of a front. -/

section

variable {key : α → UInt32} {l sorted : List α} {a : α}

/-- The last element with a property has none of them behind it. -/
theorem getLast?_filter_eq_some_iff {p : α → Bool} :
    (l.filter p).getLast? = some a ↔
      p a ∧ ∃ front behind, l = front ++ a :: behind ∧ ∀ b ∈ behind, ¬ p b := by
  rw [List.getLast?_filter, List.find?_eq_some_iff_append]
  refine and_congr_right fun _ => ⟨?_, ?_⟩
  · rintro ⟨behind, front, hl, hbehind⟩
    refine ⟨front.reverse, behind.reverse, ?_, fun b hb => ?_⟩
    · rw [← List.reverse_reverse l, hl]
      simp
    · simpa using hbehind b (List.mem_reverse.1 hb)
  · rintro ⟨front, behind, rfl, hbehind⟩
    refine ⟨behind.reverse, front.reverse, by simp, fun b hb => ?_⟩
    simpa using hbehind b (List.mem_reverse.1 hb)

/-- Of elements in ascending order, those up to a bound are at the front. -/
theorem takeWhile_eq_filter_of_ascending (h : sorted.Pairwise fun a b => key a ≤ key b)
    (bound : Nat) :
    sorted.takeWhile (fun a => (key a).toNat ≤ bound)
      = sorted.filter fun a => (key a).toNat ≤ bound := by
  induction h with
  | nil => rfl
  | @cons a rest hfirst _ ih =>
    by_cases ha : (key a).toNat ≤ bound
    · rw [List.takeWhile_cons_of_pos (by simpa using ha),
        List.filter_cons_of_pos (by simpa using ha), ih]
    · -- an element behind the first one above the bound is above the bound as well
      have hrest : rest.filter (fun b => (key b).toNat ≤ bound) = [] := by
        refine List.filter_eq_nil_iff.2 fun b hb hle => ha ?_
        have hab : (key a).toNat ≤ (key b).toNat := UInt32.le_iff_toNat_le.1 (hfirst b hb)
        exact Nat.le_trans hab (of_decide_eq_true hle)
      rw [List.takeWhile_cons_of_neg (by simpa using ha),
        List.filter_cons_of_neg (by simpa using ha), hrest]

/-- Sorting and leaving elements out may be done in either order. -/
theorem StablySorted.filter (h : StablySorted key l sorted) (p : α → Bool) :
    StablySorted key (l.filter p) (sorted.filter p) where
  perm := h.perm.filter p
  ascending := h.ascending.filter p
  stable k := by rw [List.filter_comm, h.stable, List.filter_comm]

/-- The last of the sorted elements has the greatest key, and stood last of those with this key. -/
theorem StablySorted.of_getLast? (h : StablySorted key l sorted)
    (hlast : sorted.getLast? = some a) :
    (∀ b ∈ l, key b ≤ key a) ∧ (l.filter (key · == key a)).getLast? = some a := by
  obtain ⟨below, rfl⟩ := List.getLast?_eq_some_iff.1 hlast
  obtain ⟨-, -, hbelow⟩ := List.pairwise_append.1 h.ascending
  refine ⟨fun b hb => ?_, ?_⟩
  · rcases List.mem_append.1 (h.perm.mem_iff.2 hb) with hb | hb
    · exact hbelow b hb a List.mem_cons_self
    · rw [List.mem_singleton.1 hb]
      exact UInt32.le_refl _
  · rw [← h.stable, List.filter_append]
    simp

/-- The last of the sorted elements is told by the unsorted list. -/
theorem StablySorted.getLast?_eq_some_iff (h : StablySorted key l sorted) :
    sorted.getLast? = some a ↔
      (∀ b ∈ l, key b ≤ key a) ∧ (l.filter (key · == key a)).getLast? = some a := by
  refine ⟨h.of_getLast?, ?_⟩
  rintro ⟨hgreatest, hlast⟩
  have hmem : a ∈ l := (List.mem_filter.1 (List.mem_of_getLast? hlast)).1
  obtain ⟨b, hb⟩ : ∃ b, sorted.getLast? = some b := by
    rw [← Option.isSome_iff_exists, List.getLast?_isSome]
    exact List.ne_nil_of_mem (h.perm.mem_iff.2 hmem)
  obtain ⟨hgreatest', hlast'⟩ := h.of_getLast? hb
  have hmem' : b ∈ l := h.perm.mem_iff.1 (List.mem_of_getLast? hb)
  have hkey : key b = key a := UInt32.le_antisymm (hgreatest b hmem') (hgreatest' a hmem)
  rw [hkey] at hlast'
  rw [hb, ← hlast', hlast]

-- two elements with the same greatest key that are both last are the same
/-- **The end of the front.** Of elements that were sorted stably, the last one in front of those
above a bound has the greatest key up to the bound, and stood last of those with this key. -/
theorem StablySorted.getLast?_takeWhile_eq_some_iff (h : StablySorted key l sorted) {bound : Nat} :
    (sorted.takeWhile fun a => (key a).toNat ≤ bound).getLast? = some a ↔
      (key a).toNat ≤ bound ∧ (∀ b ∈ l, (key b).toNat ≤ bound → key b ≤ key a) ∧
        (l.filter (key · == key a)).getLast? = some a := by
  rw [takeWhile_eq_filter_of_ascending h.ascending, (h.filter _).getLast?_eq_some_iff,
    List.filter_filter]
  by_cases hle : (key a).toNat ≤ bound
  · -- all that shares the key of `a` is up to the bound
    have hsame : (l.filter fun b => key b == key a && decide ((key b).toNat ≤ bound))
        = l.filter (key · == key a) := by
      refine List.filter_congr fun b _ => ?_
      by_cases hkey : key b = key a <;> simp [hkey, hle]
    rw [hsame]
    simp [hle]
  · refine iff_of_false (fun hlast => hle ?_) fun h => hle h.1
    have hmem := (List.mem_filter.1 (List.mem_of_getLast? hlast.2)).2
    simp only [Bool.and_eq_true, decide_eq_true_eq] at hmem
    exact hmem.2

end

/-! ### Resolving an offset

What an offset is resolved to is told by the bytes it covers (`Belongs`), so that no division is
needed to say it. -/

/-- A place is where an offset belongs: in the variable of the greatest offset up to it, the last
one if several have it, and in one of the four components of a row of this variable. -/
structure Belongs (vars : List Variable) (offset : Nat) (r : ResolvedOffset) : Prop where
  greatest : ∀ v ∈ vars, v.offset.toNat ≤ offset → v.offset ≤ r.found.offset
  last : ∃ front behind, vars = front ++ r.found :: behind ∧
    ∀ v ∈ behind, v.offset ≠ r.found.offset
  component_le : r.component ≤ 3
  first_le : r.found.offset.toNat + 16 * r.row + 4 * r.component ≤ offset
  lt_end : offset < r.found.offset.toNat + 16 * r.row + 4 * r.component + 4

/-- An offset within the buffer is resolved at the end of the front of the variables. -/
theorem resolve_eq_ok_iff {b : ConstantBuffer} {offset : Nat} {r : ResolvedOffset} :
    b.resolve offset = .ok r ↔ offset < b.size.toNat ∧
      (b.vars.takeWhile fun v => v.offset.toNat ≤ offset).getLast? = some r.found ∧
        r.row = (offset - r.found.offset.toNat) / 16 ∧
        r.component = (offset - r.found.offset.toNat) % 16 / 4 := by
  obtain ⟨found, row, component⟩ := r
  unfold ConstantBuffer.resolve
  split
  · next hin =>
    split
    · next v hv =>
      simp only [hv, hin, Except.ok.injEq, ResolvedOffset.mk.injEq, Option.some.injEq, true_and,
        ConstantBuffer.rowBytes]
      -- the variable determines the row and the component
      constructor
      · rintro ⟨rfl, rfl, rfl⟩
        exact ⟨rfl, rfl, rfl⟩
      · rintro ⟨rfl, rfl, rfl⟩
        exact ⟨rfl, rfl, rfl⟩
    · next hnone => simp [hnone]
  · next hout => simp [hout]

/-- The row and the component of a place are told by the bytes they cover. -/
theorem row_component_iff {r : ResolvedOffset} {offset : Nat}
    (hle : r.found.offset.toNat ≤ offset) :
    r.row = (offset - r.found.offset.toNat) / 16 ∧
        r.component = (offset - r.found.offset.toNat) % 16 / 4 ↔
      r.component ≤ 3 ∧ r.found.offset.toNat + 16 * r.row + 4 * r.component ≤ offset ∧
        offset < r.found.offset.toNat + 16 * r.row + 4 * r.component + 4 := by
  omega

/-- Resolving an offset finds the place where it belongs, and fails if there is none. -/
theorem resolve_eq_ok_iff_belongs {b : ConstantBuffer} {vars : List Variable} {offset : Nat}
    {r : ResolvedOffset} (h : StablySorted Variable.offset vars b.vars) :
    b.resolve offset = .ok r ↔ offset < b.size.toNat ∧ Belongs vars offset r := by
  rw [resolve_eq_ok_iff, h.getLast?_takeWhile_eq_some_iff, getLast?_filter_eq_some_iff]
  refine and_congr_right fun _ => ⟨?_, fun hr => ?_⟩
  · rintro ⟨⟨hle, hgreatest, -, front, behind, hvars, hbehind⟩, hplace⟩
    obtain ⟨hcomponent, hfirst, hend⟩ := (row_component_iff hle).1 hplace
    exact ⟨hgreatest, ⟨front, behind, hvars, by simpa using hbehind⟩, hcomponent, hfirst, hend⟩
  · have hle : r.found.offset.toNat ≤ offset := by
      have := hr.first_le
      omega
    obtain ⟨front, behind, hvars, hbehind⟩ := hr.last
    exact ⟨⟨hle, hr.greatest, beq_self_eq_true _, front, behind, hvars, by simpa using hbehind⟩,
      (row_component_iff hle).2 ⟨hr.component_le, hr.first_le, hr.lt_end⟩⟩

/-- There is no place for an offset behind the buffer, or in front of every variable. -/
theorem resolve_eq_error_iff {b : ConstantBuffer} {vars : List Variable} {offset : Nat}
    (h : StablySorted Variable.offset vars b.vars) :
    (∃ e, b.resolve offset = .error e) ↔
      b.size.toNat ≤ offset ∨ ∀ v ∈ vars, offset < v.offset.toNat := by
  unfold ConstantBuffer.resolve
  split
  · next hin =>
    have hnone : (b.vars.takeWhile fun v => v.offset.toNat ≤ offset).getLast? = none ↔
        ∀ v ∈ vars, offset < v.offset.toNat := by
      rw [takeWhile_eq_filter_of_ascending h.ascending, List.getLast?_eq_none_iff,
        List.filter_eq_nil_iff]
      simp [h.perm.mem_iff]
    rw [← hnone]
    split
    · next v hv => simp [hv, hin]
    · next hv => simp [hv]
  · next hout => simp [Nat.not_lt.1 hout]

/-! ### Buffers of a payload -/

/-- The variables of the constant buffer whose record stands at a position, in the order of their
records. -/
structure VariablesRecorded (payload : Bytes) (sizes : RecordSizes) (position : Nat)
    (vars : List Variable) : Prop where
  length : vars.length = variableCountAt payload position
  recorded : ∀ index v, vars[index]? = some v →
    VariableRecorded payload sizes (variablePosition payload sizes position index) v

/-- **Offsets are resolved.** In a constant buffer of a payload an offset has no place exactly if it
is behind the buffer or in front of every variable. Otherwise its place is in the variable of the
greatest offset up to it, the last record if several share that, in the component that holds the
byte. -/
theorem resolve_recorded {payload : Bytes} {d : ResourceDefinitions} (h : decode payload = .ok d)
    {index : Nat} {b : ConstantBuffer} (hb : d.buffers[index]? = some b) :
    ∃ vars, VariablesRecorded payload d.recordSizes (bufferPosition payload index) vars ∧
      ∀ offset,
        ((∃ e, b.resolve offset = .error e) ↔
          b.size.toNat ≤ offset ∨ ∀ v ∈ vars, offset < v.offset.toNat) ∧
        ∀ r, b.resolve offset = .ok r ↔ offset < b.size.toNat ∧ Belongs vars offset r := by
  obtain ⟨hrecorded, -⟩ := of_decode h
  obtain ⟨vars, hlength, hvars, hsorted⟩ := (hrecorded.buffers index b hb).vars
  exact ⟨vars, ⟨hlength, hvars⟩, fun offset =>
    ⟨resolve_eq_error_iff hsorted, fun r => resolve_eq_ok_iff_belongs hsorted⟩⟩

/-- A payload with a buffer of three variables `x`, `y` and `z`. The first and the last of them
begin at 16, the other one begins at 0. -/
def sharedOffset : Bytes := #[
  1, 0, 0, 0, 28, 0, 0, 0, 0, 0, 0, 0, 0, 0, 0, 0, 0, 4, 255, 255, 0, 0, 0, 0, 0, 0, 0, 0,
  -- the buffer, at 28
  140, 0, 0, 0, 3, 0, 0, 0, 52, 0, 0, 0, 48, 0, 0, 0, 0, 0, 0, 0, 0, 0, 0, 0,
  -- its variables, at 52
  142, 0, 0, 0, 16, 0, 0, 0, 4, 0, 0, 0, 2, 0, 0, 0, 124, 0, 0, 0, 0, 0, 0, 0,
  144, 0, 0, 0, 0, 0, 0, 0, 4, 0, 0, 0, 2, 0, 0, 0, 124, 0, 0, 0, 0, 0, 0, 0,
  146, 0, 0, 0, 16, 0, 0, 0, 4, 0, 0, 0, 2, 0, 0, 0, 124, 0, 0, 0, 0, 0, 0, 0,
  -- the type of a number, at 124
  0, 0, 3, 0, 1, 0, 1, 0, 0, 0, 0, 0, 0, 0, 0, 0,
  -- the names, at 140
  98, 0, 120, 0, 121, 0, 122, 0]

/-- Byte 41 is in the third component of the second row of the last record at 16. -/
theorem resolve_recorded_sharedOffset :
    ∃ d b vars z, decode sharedOffset = .ok d ∧ d.buffers[0]? = some b ∧
      VariablesRecorded sharedOffset d.recordSizes 28 vars ∧ vars[2]? = some z ∧
      b.resolve 41 = .ok ⟨z, 1, 2⟩ := by
  have hbuffer : ((decode sharedOffset).toOption.bind fun d =>
      d.buffers[0]?.map fun b => (d.announced, b.size)) = some (none, 48) := by
    decide +kernel
  cases hd : decode sharedOffset with
  | error e => simp [hd, Except.toOption] at hbuffer
  | ok d =>
    obtain ⟨b, hb, hsizes⟩ : ∃ b, d.buffers[0]? = some b ∧ (d.announced, b.size) = (none, 48) := by
      simpa [hd, Except.toOption] using hbuffer
    obtain ⟨hannounced, hsize⟩ := Prod.mk.inj hsizes
    have hstep : d.recordSizes = .least := by rw [recordSizes, hannounced]
    obtain ⟨vars, hvars, hresolve⟩ := resolve_recorded hd hb
    have hposition : bufferPosition sharedOffset 0 = 28 := by decide +kernel
    rw [hposition] at hvars
    have hlength : vars.length = 3 := hvars.length.trans (by decide +kernel)
    obtain ⟨x, y, z, rfl⟩ := List.length_eq_three.1 hlength
    -- the offsets of the three variables, as they are recorded
    have hoffset (index : Nat) (v : Variable) (h : [x, y, z][index]? = some v) :
        v.offset = sharedOffset.wordAt
          (variablePosition sharedOffset .least 28 index + 4) :=
      hstep ▸ (hvars.recorded index v h).offset
    have hx : x.offset = 16 := (hoffset 0 x rfl).trans (by decide +kernel)
    have hy : y.offset = 0 := (hoffset 1 y rfl).trans (by decide +kernel)
    have hz : z.offset = 16 := (hoffset 2 z rfl).trans (by decide +kernel)
    -- of the two at one offset the last is found
    have hbelongs : Belongs [x, y, z] 41 ⟨z, 1, 2⟩ :=
      { greatest := by simp [hx, hy, hz]
        last := ⟨[x, y], [], rfl, nofun⟩
        component_le := by simp
        first_le := by simp [hz]
        lt_end := by simp [hz] }
    have hin : 41 < b.size.toNat := by
      rw [hsize]
      decide
    exact ⟨d, b, [x, y, z], z, rfl, hb, hvars, rfl, ((hresolve 41).2 _).2 ⟨hin, hbelongs⟩⟩

end ResourceDefinitions
end ShaderBytecode
