import Mathlib.Logic.Relation
import ShaderBytecode.Proofs.Resource.SharedCursor

/-!
# Types that can be expanded

Type records point at the types of their members, so the records of a payload are a graph, in which
types may be shared and may even contain themselves. A tree of types is expanded from it. From one
type record to the type of a member the tree gets less deep,

    TypeRecorded.of_memberOf : TypeRecorded payload sizes p type → MemberOf payload p q →
      ∃ type', TypeRecorded payload sizes q type' ∧ type'.depth < type.depth

and a record is expanded to one tree only, so no record that was expanded lies below itself.

A graph may be expanded to a tree that is much larger than itself, since a shared type is expanded
anew for each member. It is the counter that keeps this small, and the depth that rules out cycles.
-/

namespace ShaderBytecode
namespace ResourceDefinitions

open Relation

/-- The type record at `q` is the type of a member of the one at `p`. -/
def MemberOf (payload : Bytes) (p q : Nat) : Prop :=
  ∃ index < memberCountAt payload p,
    q = positionAt payload (memberPosition payload p index + 4)

/-- A variable of a constant buffer points at the type record at `p`. -/
def TypeOfVariable (payload : Bytes) (sizes : RecordSizes) (p : Nat) : Prop :=
  ∃ buffer < positionAt payload 0,
    ∃ index < variableCountAt payload (bufferPosition payload buffer),
      p = positionAt payload
        (variablePosition payload sizes (bufferPosition payload buffer) index + 16)

section

variable {payload : Bytes} {sizes : RecordSizes}

/-- The type of a member is recorded as well, and goes less deep. -/
theorem TypeRecorded.of_memberOf {p q : Nat} {type : VariableType}
    (h : TypeRecorded payload sizes p type) (hq : MemberOf payload p q) :
    ∃ type', TypeRecorded payload sizes q type' ∧ type'.depth < type.depth := by
  obtain ⟨index, hindex, rfl⟩ := hq
  cases h with
  | @mk _ shape members hshape hlength _ htype =>
    rw [← hlength] at hindex
    have hm : members[index]? = some members[index] := List.getElem?_eq_getElem hindex
    have hdepth : ∀ m ∈ members, m.2.2.depth < (Members.ofList members).depth :=
      Members.depth_ofList_le_iff.1 (Nat.le_refl _)
    exact ⟨members[index].2.2, htype index _ hm, hdepth _ (List.getElem_mem hindex)⟩

/-- So is every type that is reached through members of members. -/
theorem TypeRecorded.of_transGen {p q : Nat} {type : VariableType}
    (h : TypeRecorded payload sizes p type) (hq : TransGen (MemberOf payload) p q) :
    ∃ type', TypeRecorded payload sizes q type' ∧ type'.depth < type.depth := by
  induction hq with
  | single hq => exact h.of_memberOf hq
  | tail _ hq ih => -- the last step makes the tree less deep once more
    obtain ⟨type', htype', hlt'⟩ := ih
    obtain ⟨type'', htype'', hlt''⟩ := htype'.of_memberOf hq
    exact ⟨type'', htype'', Nat.lt_trans hlt'' hlt'⟩

/-- A type record that was expanded does not lie below itself. -/
theorem TypeRecorded.not_transGen_self {p : Nat} {type : VariableType}
    (h : TypeRecorded payload sizes p type) : ¬ TransGen (MemberOf payload) p p := by
  intro hcycle
  obtain ⟨type', htype', hlt⟩ := h.of_transGen hcycle
  obtain rfl := h.unique htype'
  exact Nat.lt_irrefl _ hlt

/-- Whatever type record a variable points at is expanded. -/
theorem Recorded.exists_typeRecorded {d : ResourceDefinitions} (h : Recorded payload d) {p : Nat}
    (hp : TypeOfVariable payload d.recordSizes p) :
    ∃ type, TypeRecorded payload d.recordSizes p type := by
  obtain ⟨buffer, hbuffer, index, hindex, rfl⟩ := hp
  rw [← h.length_buffers] at hbuffer
  obtain ⟨vars, hlength, hvars, -⟩ := (h.buffers buffer _ (List.getElem?_eq_getElem hbuffer)).vars
  rw [← hlength] at hindex
  exact ⟨_, (hvars index _ (List.getElem?_eq_getElem hindex)).type⟩

end

/-- **The expansion of types ends.** Whatever the payload, a walk through it begins at most one type
record more than there may be. If it can be decoded, then the walk has begun as many records as the
types of all variables are made of, there are no more than there may be, no type is nested too deep,
and no type record that can be reached from a variable lies below itself. -/
theorem expansion_bounded (payload : Bytes) :
    (traverse payload).1 = decode payload ∧
      (traverse payload).2.types ≤ maxTypeRecords + 1 ∧
      ∀ d, decode payload = .ok d →
        (traverse payload).2.types = d.recordCount ∧ d.recordCount ≤ 65536 ∧
        (∀ b ∈ d.buffers, ∀ v ∈ b.vars, v.type.depth ≤ 16) ∧
        ∀ root p, TypeOfVariable payload d.recordSizes root →
          ReflTransGen (MemberOf payload) root p → ¬ TransGen (MemberOf payload) p p := by
  refine ⟨traverse_fst payload, traverse_types_le payload, ?_⟩
  intro d hd
  obtain ⟨hrecorded, -, hcount, hdepth⟩ := of_decode hd
  refine ⟨traverse_types hd, hcount, hdepth, ?_⟩
  intro root p hroot hp
  obtain ⟨type, htype⟩ := hrecorded.exists_typeRecorded hroot
  rcases reflTransGen_iff_eq_or_transGen.1 hp with rfl | hp
  · exact htype.not_transGen_self
  · obtain ⟨type', htype', -⟩ := htype.of_transGen hp
    exact htype'.not_transGen_self

/-- The structure in this payload holds a number, not itself. -/
theorem expansion_bounded_of_twoVariables :
    ∃ d, decode twoVariables = .ok d ∧ d.recordCount = 3 ∧
      ¬ TransGen (MemberOf twoVariables) 116 116 := by
  obtain ⟨d, hd⟩ := exists_decode_twoVariables
  obtain ⟨-, -, hbounds⟩ := expansion_bounded twoVariables
  obtain ⟨-, -, -, hacyclic⟩ := hbounds d hd
  have hcount : d.recordCount = 3 := by
    have hcounted : (counted twoVariables 0).toOption.map Prod.snd = some 3 := by decide +kernel
    obtain ⟨-, hd', -⟩ := of_decode hd
    rw [hd'] at hcounted
    exact Option.some.inj hcounted
  have hroot : TypeOfVariable twoVariables d.recordSizes 116 := by
    refine ⟨0, by decide +kernel, 0, by decide +kernel, ?_⟩
    rw [variablePosition, Nat.zero_mul]
    decide +kernel
  exact ⟨d, hd, hcount, hacyclic 116 116 hroot .refl⟩

end ResourceDefinitions
end ShaderBytecode
