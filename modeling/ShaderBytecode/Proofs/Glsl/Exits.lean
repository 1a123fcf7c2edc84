import ShaderBytecode.Proofs.Glsl.Entries

/-!
# Leaving `main`

Control flow is not rebuilt, so a return or a discard may only stand outside of all blocks; a
counter of open blocks tells where that is. Before `main` is left, the position of a vertex is
copied to its provided variable, also at the end of `main` unless the program ends with a return.

    copied_before_exits : the statements that leave `main` are those of the ways out that stand
                          outside of all blocks, and copies are made before each of them; they are
                          made at the end too, unless a return with operands stands there

Such a return is no way out, and leaves a comment; but the program is taken to end with a return, so
that nothing is copied: `not_copied_strayReturn`.

The counter is the only thing that a body knows of control flow, and it follows the opcodes. It goes
wrong if an operation that opens a block has the operands of an arithmetic one. Such an operation is
refused here as a hypothesis, `BlockFormed`, and not by the decoder.
-/

namespace ShaderBytecode
namespace Glsl

/-! ### Nesting

The number of open blocks never falls below zero, as in the counter itself. -/

/-- By how much an opcode changes the number of open blocks. -/
def blockChange : Opcode → Int
  | .beginIf | .beginLoop | .beginSwitch => 1
  | .endIf | .endLoop | .endSwitch => -1
  | _ => 0

/-- The number of open blocks behind an entry, where no more are closed than are open. -/
def nestingAfter (depth : Nat) : Instruction → Nat
  | .operation head _ => (depth + blockChange head.opcode).toNat
  | _ => depth

/-- The entries that stand outside of all blocks, with a number of blocks open before the first. -/
def outermost (depth : Nat) : List Instruction → List Instruction
  | [] => []
  | i :: rest =>
    if depth = 0 then i :: outermost (nestingAfter depth i) rest
    else outermost (nestingAfter depth i) rest

/-- If an entry opens or closes a block, it has the general form, which is that of all operations of
control flow. -/
def BlockFormed : Instruction → Prop
  | .operation head operands => blockChange head.opcode ≠ 0 → isGeneral operands = true
  | _ => True

instance : DecidablePred BlockFormed
  | .operation _ _ => inferInstanceAs (Decidable (_ → _))
  | .declaration _ | .customData _ | .unknown _ _ => inferInstanceAs (Decidable True)

/-- The way out that an entry is outside of all blocks, if it is one. -/
def entryExit? : Instruction → Option Exit
  | .operation head operands => operationExit? head operands
  | _ => none

/-- The counter follows the opcodes, where blocks have their form. -/
theorem depthAfter_eq {head : OperationHead} {operands : List Operand}
    (h : BlockFormed (.operation head operands)) (depth : Nat) :
    depthAfter depth head operands = nestingAfter depth (.operation head operands) := by
  have hmatch : (match head.opcode with
      | .beginIf | .beginLoop | .beginSwitch => depth + 1
      | .endIf | .endLoop | .endSwitch => depth - 1
      | _ => depth) = (depth + blockChange head.opcode).toNat := by
    unfold blockChange
    split <;> omega
  unfold depthAfter nestingAfter
  split
  · exact hmatch
  · next hgeneral =>
    have hzero : blockChange head.opcode = 0 := not_not.1 fun hne => hgeneral (h hne)
    simp [hzero]

/-! ### Ways out

Each entry adds the ways out that it is, and no statement besides is one. Comments, declarations and
assignments stay within `main`. -/

section

variable {ctx : BodyContext} {raw : UInt32 → Prop}

/-- The counter behind an entry. -/
theorem depth_stateAfter {s : BodyState} {i : Instruction} {statements : List Statement}
    (h : BlockFormed i) : (stateAfter s i statements).depth = nestingAfter s.depth i := by
  cases i with
  | operation head operands => exact depthAfter_eq h s.depth
  | _ => rfl

/-- A plain statement is no way out. -/
theorem Statement.Plain.exit? {ctx : Context} {t : Statement} (h : t.Plain ctx raw) :
    t.exit? = none := by
  cases t with
  | leave => exact h.elim
  | returnIf condition copies => exact h.elim
  | discardIf condition => exact h.elim
  | _ => rfl

/-- Assignments are no ways out. -/
theorem exit?_assignments (as : List Assignment) :
    (as.map Statement.assign).filterMap Statement.exit? = [] :=
  filterMap_assignments (fun _ => rfl) as

/-- Declarations of temporary registers are no ways out. -/
theorem exit?_tempDeclarations (count : Nat) :
    (tempDeclarations count).filterMap Statement.exit? = [] := by
  simp [tempDeclarations, List.filterMap_eq_nil_iff, Statement.exit?]

/-- Nor are those that a declaration makes. -/
theorem exit?_declarationStatements (usedTemps : Nat) (tempsDeclared : Bool) (d : Declaration) :
    (declarationStatements usedTemps tempsDeclared d).filterMap Statement.exit? = [] := by
  unfold declarationStatements
  split
  · split
    · rfl
    · exact exit?_tempDeclarations _
  · rfl
  · rfl

/-- The ways out of an operation, which are its own if it stands outside of all blocks. -/
theorem Lowered.exit? {ctx : Context} {copies : List Assignment} {outside : Bool}
    {head : OperationHead} {operands : List Operand} {statements : List Statement}
    (h : Lowered ctx raw copies outside head operands statements) :
    statements.filterMap Statement.exit?
      = if outside then (operationExit? head operands).toList else [] := by
  cases h with
  | plain hexit hplain =>
    rw [hplain.filterMap_eq_nil fun _ ht => ht.exit?]
    rcases hexit with hexit | rfl <;> simp [*]
  | leave hexit houtside =>
    rw [List.filterMap_append, exit?_assignments, hexit, houtside]
    rfl
  | returnIf hexit houtside => rw [hexit, houtside]; rfl
  | discardIf hexit houtside => rw [hexit, houtside]; rfl

/-- The ways out of an entry. -/
theorem EntryLowered.exit? {s : BodyState} {i : Instruction} {statements : List Statement}
    (h : EntryLowered ctx raw s i statements) :
    statements.filterMap Statement.exit? = if s.depth = 0 then (entryExit? i).toList else [] := by
  cases h with
  | operation h => simpa [entryExit?] using h.exit?
  | declaration d =>
    rw [List.filterMap_cons_none rfl, exit?_declarationStatements]
    split <;> rfl
  | customData data text => split <;> rfl
  | unknown number words text => split <;> rfl

/-- The ways out of entries are those of the ones outside of all blocks. -/
theorem EntriesLowered.exit? {s : BodyState} {instructions : List Instruction}
    {statements : List Statement} (h : EntriesLowered ctx raw s instructions statements)
    (hblocks : ∀ i ∈ instructions, BlockFormed i) :
    statements.filterMap Statement.exit?
      = (outermost s.depth instructions).filterMap entryExit? := by
  induction h with
  | nil s => rfl
  | @cons s i rest statements more h _ ih =>
    rw [List.forall_mem_cons] at hblocks
    -- The counter of open blocks follows the opcodes, since all blocks have the general form.
    rw [List.filterMap_append, h.exit?, ih hblocks.2, depth_stateAfter hblocks.1, outermost]
    split
    · rw [List.filterMap_cons]
      cases entryExit? i <;> rfl
    · rfl

/-! ### Copies before returns

To be copied before a return is said of a list of statements, with whatever stands in front of the
return. It is kept when lists are put together. -/

/-- Copies are made before every return among some statements. -/
structure CopiedBeforeReturns (copies : List Assignment) (statements : List Statement) : Prop where
  leave : ∀ before after, statements = before ++ .leave :: after → copies.map .assign <:+ before
  returnIf : ∀ condition made, .returnIf condition made ∈ statements → made = copies

namespace CopiedBeforeReturns

variable {copies : List Assignment}

/-- Statements without a plain return. -/
theorem of_leave_not_mem {statements : List Statement} (hleave : Statement.leave ∉ statements)
    (hreturnIf : ∀ condition made, .returnIf condition made ∈ statements → made = copies) :
    CopiedBeforeReturns copies statements where
  leave before after hsplit := by
    rw [hsplit] at hleave
    exact absurd (List.mem_append_right before List.mem_cons_self) hleave
  returnIf := hreturnIf

/-- Statements without a way out. -/
theorem of_exit?_eq_nil {statements : List Statement}
    (h : statements.filterMap Statement.exit? = []) : CopiedBeforeReturns copies statements := by
  rw [List.filterMap_eq_nil_iff] at h
  refine of_leave_not_mem (fun hmem => ?_) fun condition made hmem => ?_
  · cases h _ hmem
  · cases h _ hmem

/-- Statements behind statements. -/
theorem append {xs ys : List Statement} (hxs : CopiedBeforeReturns copies xs)
    (hys : CopiedBeforeReturns copies ys) : CopiedBeforeReturns copies (xs ++ ys) where
  leave before after hsplit := by
    -- The return is among the first statements, or among the others.
    rcases List.append_eq_append_iff.1 hsplit with ⟨more, rfl, hmore⟩ | ⟨more, hmore, hrest⟩
    · exact (hys.leave more after hmore).trans (List.suffix_append xs more)
    · cases more with
      | nil =>
        have hnil : copies.map Statement.assign <:+ [] :=
          hys.leave [] after (by simpa using hrest.symm)
        exact hnil.trans List.nil_suffix
      | cons t more =>
        obtain ⟨rfl, -⟩ := List.cons.inj hrest
        exact hxs.leave before more hmore
  returnIf condition made hmem :=
    (List.mem_append.1 hmem).elim (hxs.returnIf condition made) (hys.returnIf condition made)

/-- Copies with a return behind them. -/
theorem copies_leave : CopiedBeforeReturns copies (copies.map .assign ++ [.leave]) where
  leave before after hsplit := by
    have hcopies : Statement.leave ∉ copies.map Statement.assign := by simp
    rcases List.append_eq_append_iff.1 hsplit with ⟨more, rfl, hmore⟩ | ⟨more, hmore, hrest⟩
    · cases more with
      | nil => simp
      | cons t more => simp at hmore
    · cases more with
      | nil => simp [hmore]
      | cons t more =>
        -- None of the copies is a return.
        obtain ⟨rfl, -⟩ := List.cons.inj hrest
        exact absurd (by simp [hmore]) hcopies
  returnIf condition made hmem := by simp at hmem

end CopiedBeforeReturns

/-- The statements of an operation. -/
theorem Lowered.copied {ctx : Context} {copies : List Assignment} {outside : Bool}
    {head : OperationHead} {operands : List Operand} {statements : List Statement}
    (h : Lowered ctx raw copies outside head operands statements) :
    CopiedBeforeReturns copies statements := by
  cases h with
  | plain _ hplain => exact .of_exit?_eq_nil (hplain.filterMap_eq_nil fun _ ht => ht.exit?)
  | leave => exact .copies_leave
  | returnIf =>
    refine .of_leave_not_mem (by simp) fun condition made hmem => ?_
    obtain ⟨-, rfl⟩ := Statement.returnIf.inj (List.mem_singleton.1 hmem)
    rfl
  | discardIf => exact .of_leave_not_mem (by simp) (by simp)

/-- The statements of an entry. -/
theorem EntryLowered.copied {s : BodyState} {i : Instruction} {statements : List Statement}
    (h : EntryLowered ctx raw s i statements) : CopiedBeforeReturns ctx.copies statements := by
  cases h with
  | operation h => exact h.copied
  | declaration d =>
    exact .of_exit?_eq_nil (by rw [List.filterMap_cons_none rfl, exit?_declarationStatements])
  | customData data text => exact .of_exit?_eq_nil rfl
  | unknown number words text => exact .of_exit?_eq_nil rfl

/-- The statements of entries. -/
theorem EntriesLowered.copied {s : BodyState} {instructions : List Instruction}
    {statements : List Statement} (h : EntriesLowered ctx raw s instructions statements) :
    CopiedBeforeReturns ctx.copies statements := by
  induction h with
  | nil s => exact .of_exit?_eq_nil rfl
  | cons h _ ih => exact h.copied.append ih

end

/-! ### The end of `main`

Whether a program ends with a return is asked of its last entry. The answer decides whether copies
are made at the end, before anything is known about what that entry is lowered to. -/

/-- The number of open blocks behind some entries. -/
def nesting (instructions : List Instruction) : Nat := instructions.foldl nestingAfter 0

/-- The last entry is a return with some operands, in the form of control flow, and stands outside
of all blocks. -/
def EndsWithReturn (instructions : List Instruction) (operands : List Operand) : Prop :=
  ∃ head, instructions.getLast? = some (.operation head operands) ∧ head.opcode = .ret ∧
    isGeneral operands = true ∧ nesting instructions = 0

/-- A program ends with one list of operands. -/
theorem EndsWithReturn.unique {instructions : List Instruction} {operands operands' : List Operand}
    (h : EndsWithReturn instructions operands) (h' : EndsWithReturn instructions operands') :
    operands = operands' := by
  obtain ⟨head, hlast, -⟩ := h
  obtain ⟨head', hlast', -⟩ := h'
  rw [hlast] at hlast'
  exact (Instruction.operation.inj (Option.some.inj hlast')).2

/-- The counter behind all entries. -/
theorem depthAtEnd_eq {instructions : List Instruction} (h : ∀ i ∈ instructions, BlockFormed i)
    (depth : Nat) : depthAtEnd depth instructions = instructions.foldl nestingAfter depth := by
  induction instructions generalizing depth with
  | nil => rfl
  | cons i rest ih =>
    rw [List.forall_mem_cons] at h
    have hstep : depthAtEnd depth (i :: rest) = depthAtEnd (nestingAfter depth i) rest := by
      cases i with
      | operation head operands =>
        exact congrArg (depthAtEnd · rest) (depthAfter_eq h.1 depth)
      | _ => rfl
    rw [hstep, ih h.2, List.foldl_cons]

/-- What the program is asked for, in terms of its last entry. -/
theorem endsWithReturn_iff {instructions : List Instruction}
    (h : ∀ i ∈ instructions, BlockFormed i) :
    endsWithReturn instructions = true ↔ ∃ operands, EndsWithReturn instructions operands := by
  unfold endsWithReturn EndsWithReturn nesting
  rw [← depthAtEnd_eq h]
  split
  · -- the last entry is an operation
    next head operands hlast =>
    simp only [Bool.and_eq_true, beq_iff_eq, hlast]
    constructor
    · rintro ⟨⟨hgeneral, hop⟩, hdepth⟩
      exact ⟨operands, head, rfl, hop, hgeneral, hdepth⟩
    · rintro ⟨operands', head', hsame, hop, hgeneral, hdepth⟩
      obtain ⟨rfl, rfl⟩ := Instruction.operation.inj (Option.some.inj hsame)
      exact ⟨⟨hgeneral, hop⟩, hdepth⟩
  · -- it is something else, or there is none
    next hlast =>
    simp only [Bool.false_eq_true, false_iff, not_exists, not_and]
    intro operands head hsame
    exact absurd hsame (hlast head operands)

/-- The statements of two lists of entries. -/
theorem exists_value_append (ctx : BodyContext) (s : BodyState) (xs ys : List Instruction) :
    ∃ s' : BodyState, s'.depth = depthAtEnd s.depth xs ∧
      (entriesStatements ctx s (xs ++ ys)).value
        = (entriesStatements ctx s xs).value ++ (entriesStatements ctx s' ys).value := by
  induction xs generalizing s with
  | nil => exact ⟨s, rfl, rfl⟩
  | cons i rest ih =>
    obtain ⟨s', hdepth, hvalue⟩ := ih (stateAfter s i (entryStatements ctx s i).value)
    refine ⟨s', ?_, ?_⟩
    · rw [hdepth]
      cases i <;> rfl
    · simp only [List.cons_append, entriesStatements, Traced.value_bind, Traced.value_pure, hvalue,
        List.append_assoc]

/-- The statements of one entry. -/
theorem value_singleton (ctx : BodyContext) (s : BodyState) (i : Instruction) :
    (entriesStatements ctx s [i]).value = (entryStatements ctx s i).value := by
  simp only [entriesStatements, Traced.value_bind, Traced.value_pure, List.append_nil]

/-- A return outside of all blocks leaves `main` if it has no operands, and else a comment. -/
theorem value_return {ctx : BodyContext} {s : BodyState} {head : OperationHead}
    {operands : List Operand} (hop : head.opcode = .ret) (hgeneral : isGeneral operands = true)
    (hdepth : s.depth = 0) :
    (entryStatements ctx s (.operation head operands)).value =
      if operands.isEmpty then ctx.copies.map .assign ++ [.leave]
      else [controlFlowComment head operands] := by
  have hroles : OperandRoles.ofList operands = .generic operands := by
    unfold isGeneral at hgeneral
    split at hgeneral
    · next operands' hroles => rw [hroles, eq_of_ofList_eq_generic hroles]
    · cases hgeneral
  have houtside : (s.depth == 0) = true := beq_iff_eq.2 hdepth
  simp only [entryStatements, operation, hroles, general, hop, houtside]
  cases operands with
  | nil => rfl
  | cons o rest => rfl

/-- Behind a comment nothing has been copied, unless there is nothing to copy. -/
theorem leave_or_suffix_comment_iff (copies : List Assignment) (front : List Statement)
    (text : String) :
    ((front ++ [Statement.comment text]).getLast? = some .leave ∨
      copies.map .assign <:+ front ++ [.comment text]) ↔ copies = [] := by
  have hlast : (front ++ [Statement.comment text]).getLast? ≠ some Statement.leave := by simp
  have hcopy : Statement.comment text ∉ copies.map Statement.assign := by simp
  rw [or_iff_right hlast, List.suffix_concat_iff, List.map_eq_nil_iff]
  refine or_iff_left ?_
  -- The last of the copies would be the comment.
  rintro ⟨init, hcopies, -⟩
  rw [hcopies] at hcopy
  exact hcopy (by simp)

section

variable {c : Container} (hblocks : ∀ i ∈ entriesOf c, BlockFormed i)

include hblocks

/-- The statements of a program that ends with a return. -/
theorem exists_statementsOf_of_endsWithReturn {operands : List Operand}
    (h : EndsWithReturn (entriesOf c) operands) : ∃ head before, statementsOf c = before ++
      if operands.isEmpty then (copiesOf c).map .assign ++ [.leave]
      else [controlFlowComment head operands] := by
  obtain ⟨head, hlast, hop, hgeneral, hnesting⟩ := h
  obtain ⟨init, hentries⟩ := List.getLast?_eq_some_iff.1 hlast
  rw [hentries] at hblocks
  obtain ⟨hinit, -⟩ := List.forall_mem_append.1 hblocks
  have hchange : nestingAfter (nesting init) (.operation head operands) = nesting init := by
    simp [nestingAfter, hop, blockChange]
  -- in front of the last entry all blocks are closed
  have hdepth : depthAtEnd (startOf c).depth init = 0 := by
    rw [hentries, nesting, List.foldl_append] at hnesting
    exact (depthAtEnd_eq hinit 0).trans (hchange.symm.trans hnesting)
  obtain ⟨s, hs, hvalue⟩ := exists_value_append (bodyContextOf c) (startOf c) init
    [.operation head operands]
  rw [hdepth] at hs
  refine ⟨head, (entriesStatements (bodyContextOf c) (startOf c) init).value, ?_⟩
  rw [statementsOf, hentries, hvalue, value_singleton, value_return hop hgeneral hs]
  rfl

/-- The end of `main` is not reached, or copies are made in front of it, unless the last entry is a
return with operands. -/
theorem copied_at_end_iff (options : Options) :
    ((shader options c).body.getLast? = some .leave ∨
        (copiesOf c).map .assign <:+ (shader options c).body) ↔
      copiesOf c = [] ∨ ¬ ∃ operands, operands ≠ [] ∧ EndsWithReturn (entriesOf c) operands := by
  by_cases hreturn : ∃ operands, EndsWithReturn (entriesOf c) operands
  · have htrailing : trailingCopies c = [] := by
      rw [trailingCopies, (endsWithReturn_iff hblocks).2 hreturn, if_pos rfl]
    obtain ⟨operands, hreturn⟩ := hreturn
    obtain ⟨head, before, hstatements⟩ := exists_statementsOf_of_endsWithReturn hblocks hreturn
    rw [body_eq, htrailing, List.map_nil, List.append_nil, hstatements, ← List.append_assoc]
    cases operands with
    | nil => -- the last statement is the return
      refine iff_of_true (.inl (by simp)) (.inr ?_)
      rintro ⟨operands, hne, h⟩
      exact hne (h.unique hreturn)
    | cons o rest => -- the last statement is a comment
      have hstray : ∃ operands, operands ≠ [] ∧ EndsWithReturn (entriesOf c) operands :=
        ⟨o :: rest, List.cons_ne_nil _ _, hreturn⟩
      rw [List.isEmpty_cons, if_neg Bool.false_ne_true, or_iff_left (not_not.2 hstray)]
      exact leave_or_suffix_comment_iff _ _ _
  · have htrailing : trailingCopies c = copiesOf c := by
      have hfalse : endsWithReturn (entriesOf c) = false := by
        rw [Bool.eq_false_iff, ne_eq, endsWithReturn_iff hblocks]
        exact hreturn
      rw [trailingCopies, hfalse]
      rfl
    refine iff_of_true (.inr ?_) (.inr ?_)
    · rw [body_eq, htrailing]
      exact List.suffix_append _ _
    · rintro ⟨operands, -, h⟩
      exact hreturn ⟨operands, h⟩

end

/-! ### Whole bodies

A body is put together from parts of which only the statements of the entries leave `main`. -/

/-- The leading declarations leave nothing. -/
theorem exit?_leadingTemps (c : Container) :
    (leadingTemps c).filterMap Statement.exit? = [] := by
  unfold leadingTemps
  split
  · rfl
  · exact exit?_tempDeclarations _

/-- Copies are made before all returns of a body. -/
theorem copied_body (options : Options) (c : Container) :
    CopiedBeforeReturns (copiesOf c) (shader options c).body := by
  have hassignments (as : List Assignment) :
      CopiedBeforeReturns (copiesOf c) (as.map Statement.assign) :=
    .of_exit?_eq_nil (exit?_assignments as)
  rw [body_eq]
  exact (((hassignments _).append (.of_exit?_eq_nil (exit?_leadingTemps c))).append
    (entriesLowered_statementsOf c).copied).append (hassignments _)

/-- The ways out of a body. -/
theorem exits_body (options : Options) {c : Container}
    (hblocks : ∀ i ∈ entriesOf c, BlockFormed i) :
    (shader options c).body.filterMap Statement.exit?
      = (outermost 0 (entriesOf c)).filterMap entryExit? := by
  rw [body_eq]
  simp only [List.filterMap_append, exit?_assignments, exit?_leadingTemps, List.nil_append,
    List.append_nil]
  exact (entriesLowered_statementsOf c).exit? hblocks

/-- **Outputs are copied on every way out** of a body, and only the ways out that stand outside of
all blocks leave it. Copies are made before every return, and also in front of the end if it can be
reached, unless the last entry is a return with operands. -/
theorem copied_before_exits (options : Options) {c : Container}
    (hblocks : ∀ i ∈ entriesOf c, BlockFormed i) :
    CopiedBeforeReturns (copiesOf c) (shader options c).body ∧
    (shader options c).body.filterMap Statement.exit?
      = (outermost 0 (entriesOf c)).filterMap entryExit? ∧
    (((shader options c).body.getLast? = some .leave ∨
        (copiesOf c).map .assign <:+ (shader options c).body) ↔
      copiesOf c = [] ∨ ¬ ∃ operands, operands ≠ [] ∧ EndsWithReturn (entriesOf c) operands) :=
  ⟨copied_body options c, exits_body options hblocks, copied_at_end_iff hblocks options⟩

/-- A vertex program that puts out a position. -/
def positionContainer (instructions : List Instruction) : Container :=
  .ofPayloads (.ofBytes #[]) []
    [.outputSignature ⟨[⟨"SV_Position", 0, .position, .float32, 0, 0xF, 0, 0, .full⟩]⟩,
      .program ⟨5, 0, .vertex, instructions⟩]

/-- A return within a block, one on a condition behind it, and one at the end. -/
def threeReturns : Container :=
  positionContainer [bareOperation .beginIf [wholeRegister .temp 0], bareOperation .ret [],
    bareOperation .endIf [], bareOperation .retIf [wholeRegister .temp 0], bareOperation .ret []]

/-- The position is copied before the two returns that leave the body. -/
theorem copied_before_exits_threeReturns :
    copiesOf threeReturns ≠ [] ∧
    CopiedBeforeReturns (copiesOf threeReturns) (shader .standard threeReturns).body ∧
    (shader .standard threeReturns).body.filterMap Statement.exit? = [.retIf, .ret] := by
  obtain ⟨hcopied, hexits, -⟩ :=
    copied_before_exits .standard (c := threeReturns) (by decide)
  exact ⟨by decide, hcopied, hexits⟩

/-- A program whose last entry is a return with an operand. -/
def strayReturn : Container := positionContainer [bareOperation .ret [wholeRegister .temp 0]]

/-- At the end of the body behind such a return the position has not been copied. -/
theorem not_copied_strayReturn :
    ¬ ∀ (options : Options) (c : Container), (shader options c).body.getLast? = some .leave ∨
      (copiesOf c).map .assign <:+ (shader options c).body := by
  intro h
  have hstray : ∃ operands, operands ≠ [] ∧ EndsWithReturn (entriesOf strayReturn) operands :=
    ⟨[wholeRegister .temp 0], List.cons_ne_nil _ _, _, rfl, rfl, rfl, rfl⟩
  rcases (copied_at_end_iff (c := strayReturn) (by decide) .standard).1 (h _ _) with hnone | hnone
  · exact absurd hnone (by decide)
  · exact hnone hstray

end Glsl
end ShaderBytecode
