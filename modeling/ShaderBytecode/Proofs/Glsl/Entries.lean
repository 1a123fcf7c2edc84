import ShaderBytecode.Proofs.Glsl.Grounding

/-!
# What the entries of a program are lowered to

The statements of an operation either leave `main` as a whole, or they all stay in it and declare
nothing; whatever they are, their names are grounded. `EntriesLowered` says this of entry after
entry, so that what a body can hold is shown by induction on it.

    yields_operation         : (operation ctx copies outside head operands).Yields raw
                                 (Lowered ctx raw copies outside head operands)
    yields_entriesStatements : (entriesStatements ctx s instructions).Yields raw
                                 (EntriesLowered ctx raw s instructions)
    body_eq                  : a body is made of assignments to inputs, temporary registers, the
                                 statements of the entries and copies into outputs
    grounded_names           : every name in the body of a shader is grounded

An invariant of bodies is thus shown for the cases of `Lowered`, and with that for all programs. The
other results about bodies are made in this way.
-/

namespace ShaderBytecode
namespace Glsl

/-! ### Ways out

There are three ways out. Which of them an operation is depends on its opcode and on its having the
right number of operands. With others it leaves a comment. -/

/-- A way out of `main`. -/
inductive Exit where
  | ret
  | retIf
  | discardIf
deriving DecidableEq, Repr

/-- The way out that a statement is, if it is one. -/
def Statement.exit? : Statement → Option Exit
  | .leave => some .ret
  | .returnIf _ _ => some .retIf
  | .discardIf _ => some .discardIf
  | _ => none

/-- The way out that an operation is outside of all blocks, if it is one. -/
def operationExit? (head : OperationHead) (operands : List Operand) : Option Exit :=
  match head.opcode, operands with
  | .ret, [] => some .ret
  | .retIf, [_] => some .retIf
  | .discard, [_] => some .discardIf
  | _, _ => none

section

variable (ctx : Context) (raw : UInt32 → Prop) (copies : List Assignment) (outside : Bool)
  (head : OperationHead) (operands : List Operand)

/-- What an operation is lowered to: plain statements, unless it is a way out that stands outside of
all blocks. -/
inductive Lowered : List Statement → Prop where
  | plain {statements : List Statement}
      (hexit : operationExit? head operands = none ∨ outside = false)
      (h : AllPlain ctx raw statements) : Lowered statements
  | leave (hexit : operationExit? head operands = some .ret) (houtside : outside = true) :
      Lowered (copies.map .assign ++ [.leave])
  | returnIf {e : Expr} (hexit : operationExit? head operands = some .retIf)
      (houtside : outside = true) (he : e.Grounded ctx raw) : Lowered [.returnIf e copies]
  | discardIf {e : Expr} (hexit : operationExit? head operands = some .discardIf)
      (houtside : outside = true) (he : e.Grounded ctx raw) : Lowered [.discardIf e]

end

section

variable {ctx : Context} {raw : UInt32 → Prop}

/-- The operations that are ways out. -/
theorem operationExit?_cases {head : OperationHead} {operands : List Operand} {exit : Exit}
    (h : operationExit? head operands = some exit) :
    (exit = .ret ∧ head.opcode = .ret ∧ operands = []) ∨
      (exit = .retIf ∧ head.opcode = .retIf ∧ ∃ o, operands = [o]) ∨
      (exit = .discardIf ∧ head.opcode = .discard ∧ ∃ o, operands = [o]) := by
  unfold operationExit? at h
  split at h
  case h_1 hop => cases h; exact .inl ⟨rfl, hop, rfl⟩
  case h_2 o hop => cases h; exact .inr (.inl ⟨rfl, hop, o, rfl⟩)
  case h_3 o hop => cases h; exact .inr (.inr ⟨rfl, hop, o, rfl⟩)
  case h_4 => cases h

/-- An operation in the general form that is no way out leaves plain statements. -/
theorem yields_general_plain (copies : List Assignment) (outside : Bool) {head : OperationHead}
    {operands : List Operand} (hexit : operationExit? head operands = none) :
    (general ctx copies outside head operands).Yields raw (AllPlain ctx raw) := by
  unfold general
  dsimp only
  split
  case h_1 hop => simp [operationExit?, hop] at hexit -- the three ways out
  case h_2 hop => simp [operationExit?, hop] at hexit
  case h_3 hop => simp [operationExit?, hop] at hexit
  case h_23 => exact yields_sample head _ _ _ _ -- lookups with a level, a bias, gradients
  case h_24 => exact yields_sample head _ _ _ _
  case h_25 => exact yields_sample head _ _ _ _
  all_goals exact Traced.yields_pure (List.forall_mem_singleton.2 trivial) -- comments

/-- An operation in the general form leaves plain statements or is a way out. -/
theorem yields_general (copies : List Assignment) (outside : Bool) (head : OperationHead)
    (operands : List Operand) :
    (general ctx copies outside head operands).Yields raw
      (Lowered ctx raw copies outside head operands) := by
  cases hexit : operationExit? head operands with
  | none =>
    exact (yields_general_plain copies outside hexit).imp fun _ h => .plain (.inl hexit) h
  | some exit =>
    cases outside with
    | false => -- within a block the operation is a comment
      have hcomment : Lowered ctx raw copies false head operands
          [controlFlowComment head operands] :=
        .plain (.inr rfl) (allPlain_controlFlowComment head operands)
      rcases operationExit?_cases hexit with ⟨-, hop, rfl⟩ | ⟨-, hop, o, rfl⟩ | ⟨-, hop, o, rfl⟩
      all_goals
        simp only [general, hop]
        exact Traced.yields_pure hcomment
    | true =>
      rcases operationExit?_cases hexit with
        ⟨rfl, hop, rfl⟩ | ⟨rfl, hop, o, rfl⟩ | ⟨rfl, hop, o, rfl⟩
      · simp only [general, hop]
        exact Traced.yields_pure (.leave hexit rfl)
      · simp only [general, hop]
        exact (yields_condition head o).bind fun e he =>
          Traced.yields_pure (.returnIf hexit rfl he)
      · simp only [general, hop]
        exact (yields_condition head o).bind fun e he =>
          Traced.yields_pure (.discardIf hexit rfl he)

/-- An operation with a destination and sources is no way out. -/
theorem operationExit?_of_not_general {head : OperationHead} {operands : List Operand}
    (h : isGeneral operands = false) : operationExit? head operands = none := by
  cases hexit : operationExit? head operands with
  | none => rfl
  | some exit =>
    -- A way out has one operand at most, a destination with its sources makes two at least.
    rcases operationExit?_cases hexit with ⟨-, -, rfl⟩ | ⟨-, -, o, rfl⟩ | ⟨-, -, o, rfl⟩ <;> cases h

/-- Operands without roles are kept as they are. -/
theorem eq_of_ofList_eq_generic {operands operands' : List Operand}
    (h : OperandRoles.ofList operands = .generic operands') : operands' = operands := by
  unfold OperandRoles.ofList at h
  split at h <;> cases h
  rfl

/-- **An operation is lowered** to statements that leave `main`, or else to plain ones. -/
theorem yields_operation (copies : List Assignment) (outside : Bool) (head : OperationHead)
    (operands : List Operand) :
    (operation ctx copies outside head operands).Yields raw
      (Lowered ctx raw copies outside head operands) := by
  -- operations with a fixed number of operands become plain statements
  have hplain (hgeneral : isGeneral operands = false) {statements : List Statement}
      (h : AllPlain ctx raw statements) : Lowered ctx raw copies outside head operands statements :=
    .plain (.inl (operationExit?_of_not_general hgeneral)) h
  unfold operation
  split
  · next dst src hroles =>
    exact (yields_unary head dst src).imp fun _ h => hplain (by simp [isGeneral, hroles]) h
  · next dst a b hroles =>
    exact (yields_binary head dst a b).imp fun _ h => hplain (by simp [isGeneral, hroles]) h
  · next dst a b c hroles =>
    exact (yields_ternary head dst a b c).imp fun _ h => hplain (by simp [isGeneral, hroles]) h
  · next operands' hroles =>
    rw [eq_of_ofList_eq_generic hroles]
    exact yields_general copies outside head operands

end

/-! ### Entries

The state that is handed on from entry to entry is known before the statements are, so that entries
can be looked at one by one. -/

section

variable (ctx : BodyContext) (raw : UInt32 → Prop)

/-- What an entry is lowered to. -/
inductive EntryLowered (s : BodyState) : Instruction → List Statement → Prop where
  | operation {head : OperationHead} {operands : List Operand} {statements : List Statement}
      (h : Lowered ctx.context raw ctx.copies (s.depth == 0) head operands statements) :
      EntryLowered s (.operation head operands) statements
  | declaration (d : Declaration) :
      EntryLowered s (.declaration d)
        (.comment (declarationComment d) :: declarationStatements ctx.usedTemps s.tempsDeclared d)
  | customData (data : CustomData) (text : String) :
      EntryLowered s (.customData data) [.comment text]
  | unknown (number : Nat) (words : List UInt32) (text : String) :
      EntryLowered s (.unknown number words) [.comment text]

/-- What entries are lowered to from some state on. -/
inductive EntriesLowered : BodyState → List Instruction → List Statement → Prop where
  | nil (s : BodyState) : EntriesLowered s [] []
  | cons {s : BodyState} {i : Instruction} {rest : List Instruction}
      {statements more : List Statement} (h : EntryLowered ctx raw s i statements)
      (hrest : EntriesLowered (stateAfter s i statements) rest more) :
      EntriesLowered s (i :: rest) (statements ++ more)

end

section

variable {ctx : BodyContext} {raw : UInt32 → Prop}

/-- An entry is lowered. -/
theorem yields_entryStatements (s : BodyState) (i : Instruction) :
    (entryStatements ctx s i).Yields raw (EntryLowered ctx raw s i) := by
  unfold entryStatements
  split
  · next d => exact Traced.yields_pure (.declaration d)
  · next head operands =>
    exact (yields_operation ctx.copies _ head operands).imp fun _ h => .operation h
  · exact Traced.yields_pure (.customData _ _)
  · exact Traced.yields_pure (.customData _ _)
  · exact Traced.yields_pure (.unknown _ _ _)

/-- **Entries are lowered** one after the other. -/
theorem yields_entriesStatements (s : BodyState) (instructions : List Instruction) :
    (entriesStatements ctx s instructions).Yields raw (EntriesLowered ctx raw s instructions) := by
  induction instructions generalizing s with
  | nil => exact Traced.yields_pure (.nil s)
  | cons i rest ih =>
    refine (yields_entryStatements s i).bind fun statements h => ?_
    -- notices have no value
    refine Traced.Yields.bind (P := fun _ => True) (fun _ => trivial) fun _ _ => ?_
    exact (ih _).bind fun more hmore => Traced.yields_pure (.cons h hmore)

/-- Assignments that are left out. -/
theorem filterMap_assignments {f : Statement → Option β} (hf : ∀ a, f (.assign a) = none)
    (as : List Assignment) : (as.map Statement.assign).filterMap f = [] := by
  simp [hf]

/-! ### Names in entries

Names come with expressions, and the names of what is lowered come from operands. So it is enough to
go through the statements. -/

/-- The names of a grounded expression. -/
theorem Expr.Grounded.grounded {ctx : Context} {e : Expr} (h : e.Grounded ctx raw) :
    ∀ n ∈ e.names, n.Grounded ctx raw :=
  fun n hn => (h n hn).1

/-- The names of a grounded assignment. -/
theorem Assignment.Grounded.grounded {ctx : Context} {a : Assignment} (h : a.Grounded ctx raw) :
    ∀ n ∈ a.names, n.Grounded ctx raw :=
  List.forall_mem_append.2 ⟨h.1.grounded, h.2.grounded⟩

/-- The names of a plain statement. -/
theorem Statement.Plain.grounded {ctx : Context} {t : Statement} (h : t.Plain ctx raw) :
    t.Grounded ctx raw := by
  cases t with
  | comment text => simp [Statement.Grounded, Statement.names]
  | unmapped opcode => simp [Statement.Grounded, Statement.names]
  | assign a => exact Assignment.Grounded.grounded (a := a) h
  | wideProduct type f left right high =>
    obtain ⟨hleft, hright, htarget, hvalue⟩ := h
    exact List.forall_mem_append.2
      ⟨List.forall_mem_append.2 ⟨hleft.grounded, hright.grounded⟩,
        List.forall_mem_append.2 ⟨htarget.grounded, hvalue⟩⟩
  | _ => exact h.elim

/-- The names in what an operation is lowered to. -/
theorem Lowered.grounded {ctx : Context} {copies : List Assignment} {outside : Bool}
    {head : OperationHead} {operands : List Operand} {statements : List Statement}
    (h : Lowered ctx raw copies outside head operands statements)
    (hcopies : ∀ a ∈ copies, a.Grounded ctx raw) : ∀ t ∈ statements, t.Grounded ctx raw := by
  cases h with
  | plain _ hplain => exact fun t ht => (hplain t ht).grounded
  | leave =>
    refine List.forall_mem_append.2 ⟨List.forall_mem_map.2 fun a ha => ?_, ?_⟩
    · exact (hcopies a ha).grounded
    · simp [Statement.Grounded, Statement.names]
  | returnIf _ _ he =>
    refine List.forall_mem_singleton.2 (List.forall_mem_append.2 ⟨he.grounded, ?_⟩)
    exact List.forall_mem_flatMap.2 fun a ha => (hcopies a ha).grounded
  | discardIf _ _ he => exact List.forall_mem_singleton.2 he.grounded

/-- The names of temporary registers. -/
theorem grounded_tempDeclarations {ctx : Context} (count : Nat) :
    ∀ t ∈ tempDeclarations count, t.Grounded ctx raw := by
  unfold tempDeclarations
  exact List.forall_mem_map.2 fun n _ => List.forall_mem_singleton.2 trivial

/-- The names in what a declaration is lowered to. -/
theorem grounded_declarationStatements {ctx : Context} (usedTemps : Nat) (tempsDeclared : Bool)
    (d : Declaration) :
    ∀ t ∈ declarationStatements usedTemps tempsDeclared d, t.Grounded ctx raw := by
  unfold declarationStatements
  split
  · split
    · simp
    · exact grounded_tempDeclarations _
  · exact List.forall_mem_singleton.2 (List.forall_mem_singleton.2 trivial)
  · simp

/-- The names in what an entry is lowered to. -/
theorem EntryLowered.grounded {s : BodyState} {i : Instruction} {statements : List Statement}
    (h : EntryLowered ctx raw s i statements)
    (hcopies : ∀ a ∈ ctx.copies, a.Grounded ctx.context raw) :
    ∀ t ∈ statements, t.Grounded ctx.context raw := by
  have hcomment (text : String) : (Statement.comment text).Grounded ctx.context raw := by
    simp [Statement.Grounded, Statement.names]
  cases h with
  | operation h => exact h.grounded hcopies
  | declaration d =>
    exact List.forall_mem_cons.2 ⟨hcomment _, grounded_declarationStatements _ _ d⟩
  | customData data text => exact List.forall_mem_singleton.2 (hcomment text)
  | unknown number words text => exact List.forall_mem_singleton.2 (hcomment text)

/-- The names in what entries are lowered to. -/
theorem EntriesLowered.grounded {s : BodyState} {instructions : List Instruction}
    {statements : List Statement} (h : EntriesLowered ctx raw s instructions statements)
    (hcopies : ∀ a ∈ ctx.copies, a.Grounded ctx.context raw) :
    ∀ t ∈ statements, t.Grounded ctx.context raw := by
  induction h with
  | nil s => simp
  | cons h _ ih => exact List.forall_mem_append.2 ⟨h.grounded hcopies, ih⟩

end

/-! ### Bodies

A body has four parts, of which all but one are made from signatures and counts. The parts have
names here, because later results are about one of them each. -/

section

variable (c : Container)

/-- The entries of the program of a container. -/
def entriesOf : List Instruction := c.program.toList.flatMap (·.instructions)

/-- The program of a container declares its temporary registers. -/
def declaresTemps : Bool := (c.program.toList.flatMap Program.declarations).any isTemps

/-- The state before the first entry of a container. -/
def startOf : BodyState := ⟨0, !declaresTemps c, []⟩

/-- The temporary registers that are declared in front of all entries. -/
def leadingTemps : List Statement :=
  if declaresTemps c then [] else tempDeclarations (usedTempCount c.program)

/-- The assignments at the beginning of the body of a container. -/
def prologueOf : List Assignment :=
  prologue (stageOf c) (signatureType c.inputSignature) c.inputSignature

/-- The copies that are made before the body of a container is left. -/
def copiesOf : List Assignment := epilogue (stageOf c) c.outputSignature

/-- The copies at the end of the body of a container. -/
def trailingCopies : List Assignment := if endsWithReturn (entriesOf c) then [] else copiesOf c

/-- The statements of all entries of a container. -/
def statementsOf : List Statement :=
  (entriesStatements (bodyContextOf c) (startOf c) (entriesOf c)).value

/-- The body of a container is put together from its parts. -/
theorem bodyOf_eq :
    bodyOf c = (do
      Traced.compute (usedTempSteps c.program)
      let statements ← entriesStatements (bodyContextOf c) (startOf c) (entriesOf c)
      return (prologueOf c).map .assign ++ leadingTemps c ++ statements
        ++ (trailingCopies c).map .assign) := by
  have hcopies : (trailingCopies c).map Statement.assign
      = if endsWithReturn (entriesOf c) then []
        else (bodyContextOf c).copies.map Statement.assign := by
    unfold trailingCopies
    split <;> rfl
  simp only [hcopies]
  rfl

/-- **A body** consists of the values of provided inputs, the temporary registers unless the program
declares them, the statements of the entries, and the copies unless the program ends with a
return. -/
theorem body_eq (options : Options) :
    (shader options c).body = (prologueOf c).map .assign ++ leadingTemps c ++ statementsOf c
      ++ (trailingCopies c).map .assign :=
  congrArg Traced.value (bodyOf_eq c)

/-- The statements of the entries are what the entries are lowered to. -/
theorem entriesLowered_statementsOf :
    EntriesLowered (bodyContextOf c) (· ∈ (bodyOf c).rawSlots) (startOf c) (entriesOf c)
      (statementsOf c) := by
  refine yields_entriesStatements (startOf c) (entriesOf c) fun slot hslot => ?_
  -- The trace of the entries is part of that of the body.
  unfold bodyOf body
  simp only [Traced.rawSlots_bind]
  exact List.mem_append_right _ (List.mem_append_left _ hslot)

/-- The names in the values of provided inputs. -/
theorem grounded_prologueOf (raw : UInt32 → Prop) :
    ∀ a ∈ prologueOf c, a.Grounded (contextOf c) raw := by
  intro a ha
  obtain ⟨e, -, ha⟩ := List.mem_filterMap.1 ha
  obtain ⟨p, hp, rfl⟩ := Option.map_eq_some_iff.1 ha
  have hvalue : p.value.Grounded (contextOf c) raw := by
    unfold providedInput? at hp
    dsimp only at hp
    split at hp <;> cases hp <;> simp
  dsimp only
  split <;> simp [Assignment.Grounded, hvalue]

/-- The names in the copies. -/
theorem grounded_copiesOf (raw : UInt32 → Prop) :
    ∀ a ∈ copiesOf c, a.Grounded (contextOf c) raw := by
  refine List.forall_mem_map.2 fun e _ => ?_
  simp [Assignment.Grounded]

/-- **Every name in a body is grounded**: members are variables of bound constant buffers, samplers
are those of textures, and plain rows are of slots that have been left behind. -/
theorem grounded_names (options : Options) :
    ∀ n ∈ (shader options c).names, n.Grounded (contextOf c) (· ∈ (bodyOf c).rawSlots) := by
  -- statements that copy registers name what is copied
  have hassign (as : List Assignment)
      (has : ∀ a ∈ as, a.Grounded (contextOf c) (· ∈ (bodyOf c).rawSlots)) :
      ∀ t ∈ as.map Statement.assign, t.Grounded (contextOf c) (· ∈ (bodyOf c).rawSlots) :=
    List.forall_mem_map.2 fun a ha => (has a ha).grounded
  have htemps : ∀ t ∈ leadingTemps c, t.Grounded (contextOf c) (· ∈ (bodyOf c).rawSlots) := by
    unfold leadingTemps
    split
    · simp
    · exact grounded_tempDeclarations _
  have htrailing : ∀ a ∈ trailingCopies c, a.Grounded (contextOf c) (· ∈ (bodyOf c).rawSlots) := by
    unfold trailingCopies
    split
    · simp
    · exact grounded_copiesOf c _
  have hentries := (entriesLowered_statementsOf c).grounded (grounded_copiesOf c _)
  -- a body is the prologue, the temporary registers, the entries and the epilogue
  have hall : ∀ t ∈ (shader options c).body,
      t.Grounded (contextOf c) (· ∈ (bodyOf c).rawSlots) := by
    rw [body_eq]
    simp only [List.forall_mem_append]
    exact ⟨⟨⟨hassign _ (grounded_prologueOf c _), htemps⟩, hentries⟩, hassign _ htrailing⟩
  exact List.forall_mem_flatMap.2 hall

end

/-! ### Short programs -/

/-- A whole register as an operand. -/
def wholeRegister (file : RegisterFile) (number : UInt64) : Operand :=
  .mk ⟨0, file, .four (.mask .all), .none, .full, false⟩ (.fixed .immediate32 number .nil) none

/-- An operation without anything besides its opcode and its operands. -/
def bareOperation (opcode : Opcode) (operands : List Operand) : Instruction :=
  .operation ⟨opcode, 0, false, true, [], none⟩ operands

/-- A container with a program of these entries and nothing else. -/
def entriesContainer (stage : Stage) (instructions : List Instruction) : Container :=
  .ofPayloads (.ofBytes #[]) [] [.program ⟨5, 0, stage, instructions⟩]

end Glsl
end ShaderBytecode
