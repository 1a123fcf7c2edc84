import Mathlib.Data.List.Sort
import Mathlib.Order.MinMax
import ShaderBytecode.Proofs.Glsl.Entries
import ShaderBytecode.Proofs.Glsl.RegisterDeclarations

/-!
# The temporary registers of a body

The temporary registers of a program are counted over all of its operands before any entry is
lowered. They are declared where the program first declares some, or in front of the entries if it
never does, and not again after that.

    Operand.mem_preorder_iff : the operands that are counted are those that occur in others at any
                               depth
    declared_temps           : the local variables of a body are the temporary registers up to the
                               first declared number and up to every register that is named
-/

namespace ShaderBytecode

/-! ### Operands within operands

An index may name a register that is itself reached through an index, so the operands of an entry
are trees. Counting has to see all of their nodes: a register within an index needs a variable as
much as one that is written outright. -/

/-- An operand is another one, or occurs in a register within an index of it. -/
inductive Operand.OccursIn (o : Operand) : Operand → Prop where
  | self : OccursIn o o
  | index {p base : Operand} {i : Index} (hi : i ∈ p.indices) (hbase : i.base = some base)
      (h : OccursIn o base) : OccursIn o p

/-- The operands of the traversal are those that occur. -/
theorem Operand.mem_preorder_iff {o : Operand} (p : Operand) : o ∈ p.preorder ↔ o.OccursIn p := by
  induction p using bases_induction with
  | step p ih =>
    rw [preorder_eq, List.mem_cons, List.mem_flatMap]
    constructor
    · rintro (rfl | ⟨base, hbase, h⟩)
      · exact .self
      · obtain ⟨i, hi, hbase⟩ := List.mem_filterMap.1 hbase
        exact .index hi hbase ((ih i hi base hbase).1 h)
    · -- the base of an index is smaller than the operand, so the hypothesis is about it
      rintro (_ | ⟨hi, hbase, h⟩)
      · exact .inl rfl
      · exact .inr ⟨_, List.mem_filterMap.2 ⟨_, hi, hbase⟩, (ih _ hi _ hbase).2 h⟩

namespace Glsl

/-! ### Counting

Registers are collected by the low words of their numbers, sorted, and the last one gives the count.
That the order in which they were met is lost does no harm, for only the largest matters. -/

/-- An operand of the program, at any depth, names a temporary register by its last index. -/
def NamesTemp (c : Container) (n : UInt64) : Prop :=
  ∃ i ∈ entriesOf c, ∃ p ∈ i.ownOperands, ∃ o : Operand,
    o.OccursIn p ∧ o.file = .temp ∧ o.lastIndexValue? = some n

/-- The temporary registers that the operands of a program name, in the order of the traversal. -/
def tempNumbers (c : Container) : List UInt64 :=
  (c.program.toList.flatMap Program.operands).filterMap fun o =>
    if o.file = .temp then o.lastIndexValue? else none

theorem namesTemp_iff {c : Container} {n : UInt64} : NamesTemp c n ↔ n ∈ tempNumbers c := by
  simp only [NamesTemp, tempNumbers, entriesOf, Program.operands, Instruction.operands,
    List.mem_filterMap, List.mem_flatMap, Operand.mem_preorder_iff]
  constructor
  · -- forth: a node of an operand of some entry
    rintro ⟨i, ⟨q, hq, hi⟩, p, hp, o, ho, hfile, hlast⟩
    exact ⟨o, ⟨q, hq, i, hi, p, hp, ho⟩, by rw [if_pos hfile, hlast]⟩
  · -- back: the traversal keeps the entry and the operand that the node comes from
    rintro ⟨o, ⟨q, hq, i, hi, p, hp, ho⟩, hnamed⟩
    split at hnamed
    · next hfile => exact ⟨i, ⟨q, hq, hi⟩, p, hp, o, ho, hfile, hnamed⟩
    · cases hnamed

theorem mem_usedRegisters_temp {c : Container} {m : Nat} :
    m ∈ usedRegisters c.program .temp ↔ ∃ n, NamesTemp c n ∧ n.toUInt32.toNat = m := by
  have hused : usedRegisters c.program .temp
      = ascending ((tempNumbers c).map fun n => n.toUInt32.toNat) := by
    unfold usedRegisters tempNumbers
    rw [List.map_filterMap]
    congr 2
    funext o
    split <;> rfl
  simp only [hused, mem_ascending, List.mem_map, namesTemp_iff]

/-- Removing repetitions keeps the order of what is left. -/
theorem eraseDups_sublist [BEq α] : ∀ l : List α, l.eraseDups.Sublist l
  | [] => by simp
  | a :: l => by
    rw [List.eraseDups_cons]
    exact .cons_cons a ((eraseDups_sublist _).trans List.filter_sublist)
termination_by l => l.length
decreasing_by exact Nat.lt_succ_of_le (List.length_filter_le _ _)

theorem pairwise_ascending (ns : List Nat) : (ascending ns).Pairwise (· ≤ ·) :=
  (List.pairwise_mergeSort' (· ≤ ·) ns).sublist (eraseDups_sublist _)

theorem lt_usedTempCount_iff {program : Option Program} {k : Nat} :
    k < usedTempCount program ↔ ∃ m ∈ usedRegisters program .temp, k ≤ m := by
  unfold usedTempCount
  split
  · next last hlast =>
    obtain ⟨hne, rfl⟩ : ∃ h, (usedRegisters program .temp).getLast h = last := by
      have hne : usedRegisters program .temp ≠ [] := by
        rintro h
        rw [h] at hlast
        cases hlast
      exact ⟨hne, (List.getLast_eq_iff_getLast?_eq_some hne).2 hlast⟩
    constructor
    · intro hk
      exact ⟨_, List.getLast_mem hne, Nat.le_of_lt_succ hk⟩
    · rintro ⟨m, hm, hk⟩
      -- in ascending order the last register is the largest
      have hlast : m ≤ _ := (pairwise_ascending _).rel_getLast hm
      exact Nat.lt_succ_of_le (hk.trans hlast)
  · next hnone =>
    have hnil : usedRegisters program .temp = [] := List.getLast?_eq_none_iff.1 hnone
    simp [hnil]

/-! ### Declaring

A body declares its temporary registers in one place. If the program has a declaration, that is
where its first one stands, with the larger of the declared and the used count; later ones leave
nothing, for the state remembers that there was one. -/

/-- The local variable that a statement declares. -/
def Statement.local? : Statement → Option (ValueType × Name)
  | .declare type name => some (type, name)
  | _ => none

/-- The first temporary registers as local variables. -/
def tempLocals (count : Nat) : List (ValueType × Name) :=
  (List.range count).map fun n => (.vec4, .register .temp n)

/-- The number of temporary registers that an entry declares, if it declares some. -/
def declaredTemps? : Instruction → Option Nat
  | .declaration (.temps count) => some count.toNat
  | _ => none

/-- The local variables that entries leave: none if there are some already, else those of the first
declaration. -/
def localsFrom (usedTemps : Nat) (tempsDeclared : Bool) (instructions : List Instruction) :
    List (ValueType × Name) :=
  match tempsDeclared, instructions.findSome? declaredTemps? with
  | false, some count => tempLocals (max count usedTemps)
  | _, _ => []

/-- What a declaration of temporary registers leaves: one local variable for each. -/
theorem local?_tempDeclarations (count : Nat) :
    (tempDeclarations count).filterMap Statement.local? = tempLocals count := by
  simp [tempDeclarations, tempLocals, Function.comp_def, Statement.local?]

theorem local?_assignments (as : List Assignment) :
    (as.map Statement.assign).filterMap Statement.local? = [] :=
  filterMap_assignments (fun _ => rfl) as

section

variable {raw : UInt32 → Prop}

theorem Statement.Plain.local? {ctx : Context} {t : Statement} (h : t.Plain ctx raw) :
    t.local? = none := by
  cases t with
  | declare type name => exact h.elim
  | _ => rfl

/-- An operation declares no variables, whatever it is lowered to. -/
theorem Lowered.local? {ctx : Context} {copies : List Assignment} {outside : Bool}
    {head : OperationHead} {operands : List Operand} {statements : List Statement}
    (h : Lowered ctx raw copies outside head operands statements) :
    statements.filterMap Statement.local? = [] := by
  cases h with
  | plain _ hplain => exact hplain.filterMap_eq_nil fun _ ht => ht.local?
  | leave => rw [List.filterMap_append, local?_assignments]; rfl
  | returnIf => rfl
  | discardIf => rfl

variable {ctx : BodyContext}

theorem EntryLowered.local? {s : BodyState} {i : Instruction} {statements : List Statement}
    (h : EntryLowered ctx raw s i statements) :
    statements.filterMap Statement.local? = localsFrom ctx.usedTemps s.tempsDeclared [i] := by
  cases h with
  | operation h => rw [h.local?]; cases s.tempsDeclared <;> rfl
  | customData data text => cases s.tempsDeclared <;> rfl
  | unknown number words text => cases s.tempsDeclared <;> rfl
  | declaration d =>
    cases d with
    | temps count =>
      cases htemps : s.tempsDeclared with
      | false => exact local?_tempDeclarations _
      | true => rfl
    | _ => cases s.tempsDeclared <;> rfl

theorem tempsDeclared_stateAfter (s : BodyState) (i : Instruction) (statements : List Statement) :
    (stateAfter s i statements).tempsDeclared = (s.tempsDeclared || (declaredTemps? i).isSome) := by
  cases i with
  | declaration d => cases d <;> rfl
  | _ => rfl

/-- The local variables of a run are those of the first declaration in it. -/
theorem EntriesLowered.local? {s : BodyState} {instructions : List Instruction}
    {statements : List Statement} (h : EntriesLowered ctx raw s instructions statements) :
    statements.filterMap Statement.local?
      = localsFrom ctx.usedTemps s.tempsDeclared instructions := by
  induction h with
  | nil s => cases htemps : s.tempsDeclared <;> rfl
  -- the head says what this entry leaves, and whether the rest still may
  | @cons s i rest statements more h _ ih =>
    rw [List.filterMap_append, h.local?, ih, tempsDeclared_stateAfter]
    unfold localsFrom
    cases s.tempsDeclared with
    | true => rfl
    | false =>
      -- The entry declares temporary registers, or it leaves this to the rest.
      cases hi : declaredTemps? i with
      | some count => simp [hi]
      | none => simp [hi]

end

/-! ### Whole bodies

The prologue declares the temporary registers if no entry will. Either way the list of local
variables comes from one place, so there is one count to compare. -/

theorem declaresTemps_eq (c : Container) :
    declaresTemps c = ((entriesOf c).findSome? declaredTemps?).isSome := by
  have hentry (i : Instruction) : (declaredTemps? i).isSome ↔
      ∃ d, i = .declaration d ∧ isTemps d = true := by
    cases i with
    | declaration d => cases d <;> simp [declaredTemps?, isTemps]
    | _ => simp [declaredTemps?]
  rw [Bool.eq_iff_iff, declaresTemps, List.any_eq_true, List.findSome?_isSome_iff]
  simp only [hentry, entriesOf, Program.declarations, List.mem_flatMap, List.mem_filterMap]
  constructor
  · rintro ⟨d, ⟨p, hp, i, hi, hd⟩, htemps⟩
    cases i <;> cases hd
    exact ⟨_, ⟨p, hp, hi⟩, d, rfl, htemps⟩
  · rintro ⟨_, ⟨p, hp, hi⟩, d, rfl, htemps⟩
    exact ⟨d, ⟨p, hp, _, hi, rfl⟩, htemps⟩

/-- The number of temporary registers that are declared for a container. -/
def tempCountOf (c : Container) : Nat :=
  max (((entriesOf c).findSome? declaredTemps?).getD 0) (usedTempCount c.program)

/-- The local variables of a body, in either of the two cases. -/
theorem locals_body (options : Options) (c : Container) :
    (shader options c).body.filterMap Statement.local? = tempLocals (tempCountOf c) := by
  rw [body_eq]
  simp only [List.filterMap_append, local?_assignments, List.nil_append, List.append_nil,
    (entriesLowered_statementsOf c).local?]
  have hstart : (startOf c).tempsDeclared = !declaresTemps c := rfl
  have hused : (bodyContextOf c).usedTemps = usedTempCount c.program := rfl
  have hdeclares := declaresTemps_eq c
  rw [hstart, hused]
  -- Either the first declaration leaves the local variables, or they stand in front of the entries.
  unfold leadingTemps localsFrom tempCountOf
  cases hfirst : (entriesOf c).findSome? declaredTemps? with
  | some count =>
    rw [hfirst, Option.isSome_some] at hdeclares
    simp [hdeclares]
  | none =>
    rw [hfirst, Option.isSome_none] at hdeclares
    simp [hdeclares, local?_tempDeclarations]

/-- **Every temporary register is declared.** The local variables of a body are the temporary
registers up to some number, each once: the number that the program first declares, or that of the
registers up to the largest one that any operand names. -/
theorem declared_temps (options : Options) (c : Container)
    (hregisters : ∀ n, NamesTemp c n → n.toNat < 0xFFFFFFFF) :
    ∃ count, (shader options c).body.filterMap Statement.local? = tempLocals count ∧
      ∀ k, k < count ↔ k < ((entriesOf c).findSome? declaredTemps?).getD 0 ∨
        ∃ n, NamesTemp c n ∧ k ≤ n.toNat := by
  refine ⟨tempCountOf c, locals_body options c, fun k => ?_⟩
  rw [tempCountOf, lt_max_iff, lt_usedTempCount_iff]
  refine or_congr_right ?_
  -- Registers are counted by the low words of their numbers.
  have hword (n : UInt64) (hn : NamesTemp c n) : n.toUInt32.toNat = n.toNat := by
    have hn := hregisters n hn
    rw [UInt64.toNat_toUInt32]
    omega
  constructor
  · rintro ⟨m, hm, hk⟩
    -- a register that is counted stands for an operand somewhere
    obtain ⟨n, hn, rfl⟩ := mem_usedRegisters_temp.1 hm
    exact ⟨n, hn, hword n hn ▸ hk⟩
  · rintro ⟨n, hn, hk⟩
    exact ⟨_, mem_usedRegisters_temp.2 ⟨n, hn, rfl⟩, (hword n hn).symm ▸ hk⟩

/-- A row of a constant buffer whose number stands in an array of registers, at a place that is in
temporary register 7. -/
def nestedOperand : Operand :=
  .mk ⟨0, .constantBuffer, .four (.mask .all), .none, .full, false⟩
    (.fixed .immediate32 0 (.relative .relative 0
      (.mk ⟨0, .indexableTemp, .four (.mask .all), .none, .full, false⟩
        (.fixed .immediate32 0 (.relative .relative 0 (wholeRegister .temp 7) .nil)) none) .nil))
    none

/-- A program that declares temporary registers twice and names some beyond the first number. -/
def declaringTwice : Container :=
  entriesContainer .pixel [.declaration (.temps 2),
    bareOperation .mov [wholeRegister .temp 3, nestedOperand], .declaration (.temps 9)]

/-- The registers up to the one within the indices are declared, and none besides. -/
theorem declared_temps_declaringTwice :
    (shader .standard declaringTwice).body.filterMap Statement.local? = tempLocals 8 := by
  -- the numbers are read off by running the traversal on the program
  have hnumbers : tempNumbers declaringTwice = [3, 7] := by decide +kernel
  have hregisters (n : UInt64) (hn : NamesTemp declaringTwice n) : n.toNat ≤ 7 := by
    rw [namesTemp_iff, hnumbers] at hn
    rcases List.mem_pair.1 hn with rfl | rfl <;> decide
  have hinner : NamesTemp declaringTwice 7 := by
    rw [namesTemp_iff, hnumbers]
    exact List.mem_pair.2 (.inr rfl)
  obtain ⟨count, hlocals, hcount⟩ := declared_temps .standard declaringTwice
    fun n hn => (hregisters n hn).trans_lt (by decide)
  have hfirst : ((entriesOf declaringTwice).findSome? declaredTemps?).getD 0 = 2 := rfl
  have hlower : 7 < count := (hcount 7).2 (.inr ⟨7, hinner, Nat.le_refl 7⟩)
  have hupper : ¬ 8 < count := by
    rw [hcount, hfirst]
    rintro (h | ⟨n, hn, h⟩)
    · exact absurd h (by decide)
    · exact absurd (h.trans (hregisters n hn)) (by decide)
  obtain rfl : 8 = count := by omega
  exact hlocals

end Glsl
end ShaderBytecode
