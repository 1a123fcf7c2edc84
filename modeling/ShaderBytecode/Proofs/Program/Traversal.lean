import Mathlib.Data.List.Lex
import ShaderBytecode.Program.Instruction

/-!
# Visiting the operands of an entry

`Instruction.operands` lists operands by recursion over their indices. A walk with a stack comes to
the same list. It begins with the operands of the entry on its stack; each step takes the topmost
operand, lists it and puts the registers in its indices in its place. The top of a stack is the end
of an array, so what is to be visited first is put there last.

    Walk.ends_iff : w.Ends steps operands ↔
      steps = w.toCome.length ∧ operands = w.listed.toList ++ w.toCome

Here `toCome` is the preorder of the stack, and every step takes one operand from the front of it.

That nothing is left out, and nothing listed twice, is told by addresses: the place of an operand
of the entry, and then one slot for each index that leads down to a register. The operands of an
entry are those that its addresses lead to, in the lexicographic order of the addresses.

An address is what a reader of the entry would use to point at an operand, and it does not mention
the walk. So the statement about addresses holds of the list, in whatever way that was made.
-/

namespace ShaderBytecode

/-! ### Walks

The stack grows and shrinks, and the list grows. What stays the same is the list together with what
is to come, and so a walk is known by its beginning. -/

/-- A walk over operands. -/
structure Walk where
  /-- The operands that have been visited, in their order. -/
  listed : Array Operand
  /-- The operands to visit next, the last of them first. -/
  stack : Array Operand

namespace Walk

/-- The walk that sets out to visit some operands. -/
def start (operands : List Operand) : Walk := ⟨#[], operands.toArray.reverse⟩

/-- A stack with the registers of some indices on top of it. -/
def pushBases (stack : Array Operand) (indices : List Index) : Array Operand :=
  indices.reverse.foldl
    (fun stack i =>
      match i.base with
      | some base => stack.push base
      | none => stack)
    stack

/-- The walk after it has visited the topmost operand, if there is one. -/
def step? (w : Walk) : Option Walk :=
  w.stack.back?.map fun o => ⟨w.listed.push o, pushBases w.stack.pop o.indices⟩

/-- A walk ends after so many steps and has listed some operands by then. -/
inductive Ends : Walk → Nat → List Operand → Prop
  | ended {w : Walk} (h : w.step? = none) : Ends w 0 w.listed.toList
  | step {w w' : Walk} {steps : Nat} {operands : List Operand} (h : w.step? = some w')
    (hrest : Ends w' steps operands) : Ends w (steps + 1) operands

/-- The operands that a walk has yet to visit: those on its stack from the top down, each followed
by those within it. -/
def toCome (w : Walk) : List Operand := w.stack.toList.reverse.flatMap Operand.preorder

/-- All operands are to come in the beginning. -/
theorem toCome_start (operands : List Operand) :
    (start operands).toCome = operands.flatMap Operand.preorder := by
  simp [toCome, start]

/-- The register of the first index is the topmost. -/
theorem toList_pushBases (stack : Array Operand) (indices : List Index) :
    (pushBases stack indices).toList = stack.toList ++ (indices.filterMap Index.base).reverse := by
  induction indices with
  | nil => simp [pushBases]
  | cons i rest ih =>
    rw [pushBases, List.reverse_cons, List.foldl_append, ← pushBases, List.filterMap_cons]
    cases hbase : i.base with
    | none => simpa [hbase] using ih
    | some base => simp [hbase, ih]

/-- A step visits the topmost operand. -/
theorem step?_push (listed stack : Array Operand) (o : Operand) :
    step? ⟨listed, stack.push o⟩ = some ⟨listed.push o, pushBases stack o.indices⟩ := by
  simp [step?]

/-- The topmost operand is the first to come, and the registers in its indices come next. -/
theorem toCome_push (listed stack : Array Operand) (o : Operand) :
    toCome ⟨listed, stack.push o⟩
      = o :: toCome ⟨listed.push o, pushBases stack o.indices⟩ := by
  simp only [toCome, toList_pushBases, Array.toList_push, List.reverse_append, List.reverse_reverse,
    List.flatMap_append, List.reverse_singleton, List.flatMap_singleton]
  rw [Operand.preorder_eq, List.cons_append]

/-- When nothing is to come, the stack is empty. -/
theorem toCome_of_step?_eq_none {w : Walk} (h : w.step? = none) : w.toCome = [] := by
  rw [step?, Option.map_eq_none_iff, Array.back?_eq_none_iff] at h
  rw [toCome, h]
  rfl

/-- A step takes one operand from the front of those to come. -/
theorem of_step?_eq_some {w w' : Walk} (h : w.step? = some w') :
    ∃ o, w'.listed = w.listed.push o ∧ w.toCome = o :: w'.toCome := by
  obtain ⟨listed, stack⟩ := w
  rcases Nat.eq_zero_or_pos stack.size with hsize | hsize
  · rw [Array.eq_empty_of_size_eq_zero hsize] at h
    cases h
  · obtain ⟨stack, o, rfl⟩ := Array.eq_push_of_size_ne_zero (Nat.ne_of_gt hsize)
    rw [step?_push] at h
    cases h
    exact ⟨o, rfl, toCome_push listed stack o⟩

/-- A walk ends after one step for each operand to come, and has listed them behind those that were
listed before. The induction is on the operands to come, of which a step takes one. -/
theorem ends_iff {w : Walk} {steps : Nat} {operands : List Operand} :
    w.Ends steps operands ↔
      steps = w.toCome.length ∧ operands = w.listed.toList ++ w.toCome := by
  constructor
  · -- forth, by induction on the steps
    intro h
    induction h with
    | ended h => simp [toCome_of_step?_eq_none h]
    | step h _ ih =>
      obtain ⟨o, hlisted, hcome⟩ := of_step?_eq_some h
      obtain ⟨rfl, rfl⟩ := ih
      simp [hlisted, hcome]
  · -- back, by induction on the operands that are still to come
    rintro ⟨rfl, rfl⟩
    induction hcome : w.toCome generalizing w with
    | nil =>
      cases hstep : w.step? with
      | none => simpa using Ends.ended hstep
      | some w' =>
        obtain ⟨o, -, hcons⟩ := of_step?_eq_some hstep
        cases hcome.symm.trans hcons
    | cons o rest ih =>
      cases hstep : w.step? with
      | none => cases hcome.symm.trans (toCome_of_step?_eq_none hstep)
      | some w' =>
        obtain ⟨o', hlisted, hcons⟩ := of_step?_eq_some hstep
        cases hcome.symm.trans hcons
        have hrest := ih rfl
        rw [hlisted, Array.toList_push, List.append_assoc] at hrest
        exact .step hstep hrest

end Walk

/-! ### Addresses

Operands are a tree, whose branches are numbered by the slots of the indices. A fixed index has a
number as well, with no operand below it. -/

/-- The operand at an address within another one. An address goes down one level with each slot, to
the register in the index of that slot. -/
def Operand.at? : Operand → (address : List Nat) → Option Operand
  | o, [] => some o
  | o, slot :: address => do (← (← o.indices[slot]?).base).at? address

/-- The operand at an address within an entry: a place among the operands that the entry itself
names, and an address within the operand there. -/
def Instruction.at? (i : Instruction) : (address : List Nat) → Option Operand
  | [] => none
  | place :: address => do (← i.ownOperands[place]?).at? address

/-- Operands with the addresses at which they stand. -/
abbrev Addressed := List (List Nat × Operand)

namespace Addressed

/-- Branches one behind the other. The addresses in each of them begin with its number. -/
def ofBranches (first : Nat) : List Addressed → Addressed
  | [] => []
  | branch :: rest => branch.map (fun e => (first :: e.1, e.2)) ++ ofBranches (first + 1) rest

/-- The addresses ascend in lexicographic order. -/
def Ascending (l : Addressed) : Prop := l.Pairwise fun e e' => e.1 < e'.1

/-- The address of an operand begins with the number of its branch. -/
theorem mem_ofBranches {first : Nat} {branches : List Addressed} {address : List Nat}
    {o : Operand} : (address, o) ∈ ofBranches first branches ↔
      ∃ k branch rest, branches[k]? = some branch ∧ (rest, o) ∈ branch ∧
        address = (first + k) :: rest := by
  induction branches generalizing first with
  | nil => simp [ofBranches]
  | cons branch branches ih =>
    have hnumber (k : Nat) : first + 1 + k = first + (k + 1) := by omega
    rw [ofBranches, List.mem_append, ih, List.mem_map]
    constructor
    · -- in the first branch or in a later one
      rintro (⟨⟨rest, o⟩, hmem, heq⟩ | ⟨k, branch', rest, hk, hmem, rfl⟩)
      · cases heq
        exact ⟨0, branch, rest, rfl, hmem, rfl⟩
      · exact ⟨k + 1, branch', rest, hk, hmem, by rw [hnumber]⟩
    · rintro ⟨k, branch', rest, hk, hmem, rfl⟩
      cases k with
      | zero =>
        cases hk
        exact .inl ⟨(rest, o), hmem, rfl⟩
      | succ k => exact .inr ⟨k, branch', rest, hk, hmem, by rw [hnumber]⟩

/-- Branches give their operands one after the other. -/
theorem map_snd_ofBranches (first : Nat) (branches : List Addressed) :
    (ofBranches first branches).map Prod.snd = branches.flatMap (·.map Prod.snd) := by
  induction branches generalizing first with
  | nil => rfl
  | cons branch branches ih =>
    rw [ofBranches, List.map_append, ih, List.map_map, List.flatMap_cons]
    rfl

/-- The addresses ascend if they do so in each branch. -/
theorem ascending_ofBranches {first : Nat} {branches : List Addressed}
    (h : ∀ branch ∈ branches, branch.Ascending) : (ofBranches first branches).Ascending := by
  induction branches generalizing first with
  | nil => exact .nil
  | cons branch branches ih =>
    obtain ⟨hbranch, hrest⟩ := List.forall_mem_cons.1 h
    refine List.pairwise_append.2 ⟨?_, ih hrest, ?_⟩
    · exact List.pairwise_map.2 (hbranch.imp fun hlt => List.cons_lt_cons_iff.2 (.inr ⟨rfl, hlt⟩))
    · -- the branch in front has the smaller number
      rintro e he ⟨address', o'⟩ he'
      obtain ⟨e, -, rfl⟩ := List.mem_map.1 he
      obtain ⟨k, -, rest, -, -, rfl⟩ := mem_ofBranches.1 he'
      exact List.cons_lt_cons_iff.2 (.inl (by omega))

end Addressed

mutual

/-- The operand and all operands within it, with their addresses. -/
def Operand.addressed : Operand → Addressed
  | .mk head indices literals =>
    ([], .mk head indices literals) :: Addressed.ofBranches 0 indices.branches

/-- For each index the operands within it. -/
def Indices.branches : Indices → List Addressed
  | .nil => []
  | .fixed _ _ rest => [] :: rest.branches
  | .relative _ _ base rest => base.addressed :: rest.branches

end

/-- The operands within an index, with their addresses within its register. -/
def Index.addressed (i : Index) : Addressed := i.base.elim [] Operand.addressed

/-- An operand within an index is one within its register. -/
theorem Index.mem_addressed_iff {i : Index} {e : List Nat × Operand} :
    e ∈ i.addressed ↔ ∃ base, i.base = some base ∧ e ∈ base.addressed := by
  unfold addressed
  cases i.base <;> simp

/-- The branches of indices, one for each of them. -/
theorem Indices.branches_eq (is : Indices) : is.branches = is.toList.map Index.addressed := by
  cases is with
  | nil => rfl
  | fixed _ _ rest | relative _ _ _ rest =>
    rw [branches, rest.branches_eq]
    rfl

namespace Operand

/-- An operand has the empty address, and those within it the addresses of its branches. -/
theorem addressed_eq (o : Operand) :
    o.addressed = ([], o) :: Addressed.ofBranches 0 (o.indices.map Index.addressed) := by
  obtain ⟨head, indices, literals⟩ := o
  rw [addressed, indices.branches_eq]
  rfl

/-- Addresses are given to all operands and to no others. -/
theorem map_snd_addressed (o : Operand) : o.addressed.map Prod.snd = o.preorder := by
  induction o using bases_induction with
  | step o ih =>
    have hbranch : ∀ i ∈ o.indices,
        i.addressed.map Prod.snd = i.base.toList.flatMap preorder := by
      intro i hi
      unfold Index.addressed
      cases hbase : i.base with
      | none => rfl
      | some base => simpa using ih i hi base hbase
    rw [addressed_eq, preorder_eq, List.map_cons, Addressed.map_snd_ofBranches, List.flatMap_map,
      List.flatMap_congr hbranch, List.filterMap_eq_flatMap_toList, List.flatMap_assoc]

/-- An address leads to the operand that it was given to. -/
theorem mem_addressed_iff (o : Operand) : ∀ {address : List Nat} {q : Operand},
    (address, q) ∈ o.addressed ↔ o.at? address = some q := by
  induction o using bases_induction with
  | step o ih =>
    intro address q
    rw [addressed_eq, List.mem_cons, Addressed.mem_ofBranches]
    cases address with
    | nil => simp [at?, eq_comm]
    | cons slot address =>
      simp only [at?, List.cons.injEq, Prod.mk.injEq, reduceCtorEq, false_and, false_or,
        List.getElem?_map, Option.map_eq_some_iff, Nat.zero_add, Option.bind_eq_bind,
        Option.bind_eq_some_iff]
      constructor
      · rintro ⟨slot, _, address, ⟨i, hi, rfl⟩, hq, rfl, rfl⟩
        obtain ⟨base, hbase, hq⟩ := Index.mem_addressed_iff.1 hq
        exact ⟨i, hi, base, hbase, (ih i (List.mem_of_getElem? hi) base hbase).1 hq⟩
      · rintro ⟨i, hi, base, hbase, hq⟩
        exact ⟨slot, _, address, ⟨i, hi, rfl⟩, Index.mem_addressed_iff.2
          ⟨base, hbase, (ih i (List.mem_of_getElem? hi) base hbase).2 hq⟩, rfl, rfl⟩

/-- The addresses within an operand ascend. -/
theorem ascending_addressed (o : Operand) : o.addressed.Ascending := by
  induction o using bases_induction with
  | step o ih =>
    rw [addressed_eq]
    refine .cons ?_ (Addressed.ascending_ofBranches ?_)
    · rintro ⟨address, q⟩ hq
      obtain ⟨k, -, rest, -, -, rfl⟩ := Addressed.mem_ofBranches.1 hq
      exact List.nil_lt_cons _ _
    · intro branch hbranch
      obtain ⟨i, hi, rfl⟩ := List.mem_map.1 hbranch
      unfold Index.addressed
      cases hbase : i.base with
      | none => exact .nil
      | some base => exact ih i hi base hbase

end Operand

/-! ### Entries

An entry is like an operand whose branches are the operands that it names itself. -/

namespace Instruction

/-- All operands of an entry, with their addresses. -/
def addressed (i : Instruction) : Addressed :=
  Addressed.ofBranches 0 (i.ownOperands.map Operand.addressed)

/-- Addresses are given to all operands of an entry. -/
theorem map_snd_addressed (i : Instruction) : i.addressed.map Prod.snd = i.operands := by
  rw [addressed, Addressed.map_snd_ofBranches, List.flatMap_map]
  exact List.flatMap_congr fun o _ => o.map_snd_addressed

/-- An address of an entry leads to the operand that it was given to. -/
theorem mem_addressed_iff (i : Instruction) {address : List Nat} {o : Operand} :
    (address, o) ∈ i.addressed ↔ i.at? address = some o := by
  rw [addressed, Addressed.mem_ofBranches]
  cases address with
  | nil => simp [at?]
  | cons place address =>
    simp only [at?, List.cons.injEq, List.getElem?_map, Option.map_eq_some_iff, Nat.zero_add,
      Option.bind_eq_bind, Option.bind_eq_some_iff]
    constructor
    · rintro ⟨place, _, address, ⟨p, hp, rfl⟩, ho, rfl, rfl⟩
      exact ⟨p, hp, p.mem_addressed_iff.1 ho⟩
    · rintro ⟨p, hp, ho⟩
      exact ⟨place, _, address, ⟨p, hp, rfl⟩, p.mem_addressed_iff.2 ho, rfl, rfl⟩

/-- The addresses of an entry ascend. -/
theorem ascending_addressed (i : Instruction) : i.addressed.Ascending := by
  refine Addressed.ascending_ofBranches fun branch hbranch => ?_
  obtain ⟨o, -, rfl⟩ := List.mem_map.1 hbranch
  exact o.ascending_addressed

/-- A destination, and a row that is two behind the one its register names. The register is found
in the second index of the second operand. -/
example (h : OperationHead) (dst row base : OperandHead) (r : IndexRepresentation) :
    let indices := Indices.fixed r 0 (.relative r 2 (.mk base .nil none) .nil)
    (operation h [.mk dst .nil none, .mk row indices none]).addressed.map Prod.fst
      = [[0], [1], [1, 1]] := rfl

/-- **All operands of an entry are visited once, in preorder.** The walk with a stack ends after as
many steps as there are operands and has listed just these: the operands of the entry in their
order, each followed by the registers in its indices with the operands within them. Every address
of the entry leads to one of them, and they come in the lexicographic order of their addresses. -/
theorem operands_visited_once (i : Instruction) :
    (∀ steps operands, (Walk.start i.ownOperands).Ends steps operands ↔
      steps = i.operands.length ∧ operands = i.operands) ∧
    i.operands = i.ownOperands.flatMap Operand.preorder ∧
    (∀ o : Operand, o.preorder = o :: (o.indices.filterMap Index.base).flatMap Operand.preorder) ∧
    ∃ entries : Addressed, entries.map Prod.snd = i.operands ∧
      (entries.map Prod.fst).Pairwise (· < ·) ∧
      ∀ address o, (address, o) ∈ entries ↔ i.at? address = some o := by
  refine ⟨fun steps operands => ?_, rfl, Operand.preorder_eq, i.addressed, i.map_snd_addressed,
    List.pairwise_map.2 i.ascending_addressed, fun _ _ => i.mem_addressed_iff⟩
  rw [Walk.ends_iff, Walk.toCome_start]
  rfl

end Instruction
end ShaderBytecode
