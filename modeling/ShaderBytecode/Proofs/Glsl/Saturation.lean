import ShaderBytecode.Proofs.Glsl.Entries
import ShaderBytecode.Proofs.Glsl.LimitedStatements

/-!
# Saturation

A container is lowered twice, with one operation of its program saturating and not. Its statements
are limited then, as LimitedStatements has it, and the rest of the shader does not change.

    Occurrence              : an operation in a container
    Occurrence.alike_bodyOf : the bodies are the same around the statements of the operation
    saturation_only_limits  : and so are the shaders

The occurrence may be anywhere in a program, with any entries in front and behind. That the rest is
the same needs more than equal statements: the entries behind the operation are lowered in the state
that it leaves.
-/

namespace ShaderBytecode
namespace Glsl

open Traced

/-! ### Bodies

Sameness around a part is kept by what is put in front and behind. -/

/-- Two lists are the same but for these parts of them. -/
def SameAround (part part' xs ys : List α) : Prop :=
  ∃ front back, xs = front ++ part ++ back ∧ ys = front ++ part' ++ back

theorem SameAround.append_left {part part' xs ys : List α} (h : SameAround part part' xs ys)
    (front : List α) : SameAround part part' (front ++ xs) (front ++ ys) := by
  obtain ⟨front', back, rfl, rfl⟩ := h
  refine ⟨front ++ front', back, ?_, ?_⟩
  · simp only [List.append_assoc]
  · simp only [List.append_assoc]

theorem SameAround.append_right {part part' xs ys : List α} (h : SameAround part part' xs ys)
    (back : List α) : SameAround part part' (xs ++ back) (ys ++ back) := by
  obtain ⟨front, back', rfl, rfl⟩ := h
  refine ⟨front, back' ++ back, ?_, ?_⟩
  · simp only [List.append_assoc]
  · simp only [List.append_assoc]

section

variable {ctx : Context} {operands : List Operand} {type : NumberType} {copies : List Assignment}

/-- The same operations have no form in GLSL. -/
theorem unreported_eq_of_limited {statements statements' : List Statement}
    (h : List.Forall₂ (Limited ctx operands type copies) statements statements')
    (reported : List Opcode) :
    unreported reported statements = unreported reported statements' := by
  induction h with
  | nil => rfl
  | cons hs _ ih =>
    unfold unreported at ih ⊢
    rw [List.filterMap_cons, List.filterMap_cons, ih]
    cases hs <;> rfl

/-- Nothing that passes on to the next entry differs. -/
theorem stateAfter_eq_of_limited {statements statements' : List Statement}
    (h : List.Forall₂ (Limited ctx operands type copies) statements statements') (s : BodyState)
    (head : OperationHead) :
    stateAfter s (.operation (head.withSaturate false) operands) statements
      = stateAfter s (.operation (head.withSaturate true) operands) statements' := by
  have hdepth : depthAfter s.depth (head.withSaturate false) operands
      = depthAfter s.depth (head.withSaturate true) operands := rfl
  simp only [stateAfter, unreported_eq_of_limited h, hdepth]

end

/-! ### An operation in a container

Both containers are made from one surrounding, so that most of their parts are the same by
definition. -/

/-- An operation in the program of a container, with everything around it. -/
structure Occurrence where
  /-- The container, apart from its program. -/
  surrounding : Container
  /-- The program, apart from its entries. -/
  header : Program
  before : List Instruction
  head : OperationHead
  operands : List Operand
  after : List Instruction

namespace Occurrence

variable (o : Occurrence)

/-- The entries of the program, the operation saturating or not. -/
def entries (saturate : Bool) : List Instruction :=
  o.before ++ .operation (o.head.withSaturate saturate) o.operands :: o.after

/-- The program, the operation saturating or not. -/
def program (saturate : Bool) : Program :=
  { o.header with instructions := o.entries saturate }

/-- The container, the operation saturating or not. -/
def container (saturate : Bool) : Container :=
  { o.surrounding with program := some (o.program saturate) }

/-- The statements of the operation. -/
def statements (saturate : Bool) : List Statement :=
  (operation (contextOf (o.container false)) (copiesOf (o.container false))
    (depthAtEnd 0 o.before == 0) (o.head.withSaturate saturate) o.operands).value

/-- The number type of what the operation computes. -/
def type : NumberType := computedType (contextOf (o.container false)) o.head o.operands

/-! Neither flag is seen by the parts of a shader besides its body. -/

@[simp]
theorem resources_container (saturate : Bool) :
    (o.container saturate).resources = o.surrounding.resources := rfl

@[simp]
theorem inputSignature_container (saturate : Bool) :
    (o.container saturate).inputSignature = o.surrounding.inputSignature := rfl

@[simp]
theorem outputSignature_container (saturate : Bool) :
    (o.container saturate).outputSignature = o.surrounding.outputSignature := rfl

@[simp]
theorem stageOf_container (saturate : Bool) :
    stageOf (o.container saturate) = some o.header.stage := rfl

@[simp]
theorem profile_container (saturate : Bool) :
    (o.container saturate).program.map Program.profile = some o.header.profile := rfl

theorem entriesOf_container (saturate : Bool) :
    entriesOf (o.container saturate) = o.entries saturate :=
  List.append_nil _

theorem declarations_eq : (o.program true).declarations = (o.program false).declarations := by
  simp only [Program.declarations, program, entries, List.filterMap_append, List.filterMap_cons]

theorem operands_eq : (o.program true).operands = (o.program false).operands := by
  simp only [Program.operands, program, entries, List.flatMap_append, List.flatMap_cons]
  rfl

theorem immediateBuffer?_eq :
    (o.program true).immediateBuffer? = (o.program false).immediateBuffer? := by
  simp only [Program.immediateBuffer?, program, entries, List.findSome?_append,
    List.findSome?_cons]

theorem usedRegisters_eq :
    usedRegisters (o.container true).program = usedRegisters (o.container false).program := by
  funext file
  simp only [usedRegisters, container, Option.toList_some, List.flatMap_cons, List.flatMap_nil,
    operands_eq]

theorem usedTempCount_eq :
    usedTempCount (o.container true).program = usedTempCount (o.container false).program := by
  rw [usedTempCount, usedRegisters_eq, usedTempCount]

theorem allDeclarations_eq :
    (o.container true).program.toList.flatMap Program.declarations
      = (o.container false).program.toList.flatMap Program.declarations := by
  simp only [container, Option.toList_some, List.flatMap_cons, List.flatMap_nil, declarations_eq]

theorem declaredBuffers_eq :
    declaredBuffers (o.container true).program = declaredBuffers (o.container false).program := by
  rw [declaredBuffers, allDeclarations_eq, declaredBuffers]

theorem contextOf_eq : contextOf (o.container true) = contextOf (o.container false) := by
  simp only [contextOf, Texture.collect, allDeclarations_eq, resources_container,
    inputSignature_container, outputSignature_container]

theorem bodyContextOf_eq :
    bodyContextOf (o.container true) = bodyContextOf (o.container false) := by
  simp only [bodyContextOf, contextOf_eq, usedTempCount_eq, stageOf_container,
    outputSignature_container]

theorem declaresTemps_eq :
    declaresTemps (o.container true) = declaresTemps (o.container false) := by
  rw [declaresTemps, allDeclarations_eq, declaresTemps]

theorem startOf_eq : startOf (o.container true) = startOf (o.container false) := by
  rw [startOf, declaresTemps_eq, startOf]

theorem leadingTemps_eq : leadingTemps (o.container true) = leadingTemps (o.container false) := by
  rw [leadingTemps, declaresTemps_eq, usedTempCount_eq, leadingTemps]

theorem depthAtEnd_eq (depth : Nat) :
    depthAtEnd depth (o.entries true) = depthAtEnd depth (o.entries false) := by
  unfold depthAtEnd entries
  rw [List.foldl_append, List.foldl_append]
  rfl

theorem endsWithReturn_eq : endsWithReturn (o.entries true) = endsWithReturn (o.entries false) := by
  unfold endsWithReturn
  rw [depthAtEnd_eq]
  unfold entries
  rw [List.getLast?_append_cons, List.getLast?_append_cons]
  cases o.after with
  | nil => rfl
  | cons i rest => rw [List.getLast?_cons_cons, List.getLast?_cons_cons]

theorem trailingCopies_eq :
    trailingCopies (o.container true) = trailingCopies (o.container false) := by
  simp only [trailingCopies, copiesOf, entriesOf_container, endsWithReturn_eq, stageOf_container,
    outputSignature_container]

/-! ### Two runs

The entries in front are lowered alike because they are the same. The entries behind are, because
the state behind the operation is. -/

/-- Entries have the same trace, and their statements are the same but for those of the operation.
The induction is on the entries in front of it. -/
theorem alike_entriesStatements (ctx : BodyContext) (s : BodyState) (before : List Instruction) :
    let statements (saturate : Bool) := (operation ctx.context ctx.copies
      (depthAtEnd s.depth before == 0) (o.head.withSaturate saturate) o.operands).value
    Alike (SameAround (statements false) (statements true))
      (entriesStatements ctx s
        (before ++ .operation (o.head.withSaturate false) o.operands :: o.after))
      (entriesStatements ctx s
        (before ++ .operation (o.head.withSaturate true) o.operands :: o.after)) := by
  dsimp only
  induction before generalizing s with
  | nil =>
    -- the operation in question, and the rest after the same state
    have halike := limitedAlike_operation ctx.context ctx.copies (s.depth == 0) o.head o.operands
    simp only [List.nil_append, entriesStatements]
    apply halike.bind
    rw [← unreported_eq_of_limited halike.value, ← stateAfter_eq_of_limited halike.value]
    apply alike_bind
    apply alike_bind
    exact alike_pure ⟨[], _, rfl, rfl⟩
  -- an entry in front of it is the same in both programs
  | cons i before ih =>
    have hdepth : depthAtEnd s.depth (i :: before)
        = depthAtEnd (stateAfter s i (entryStatements ctx s i).value).depth before := by
      cases i <;> rfl
    rw [hdepth]
    simp only [List.cons_append, entriesStatements]
    apply alike_bind
    apply alike_bind
    apply (ih _).bind
    exact alike_pure ((ih _).value.append_left _)

/-- The body of the container has the same trace, and its statements are the same but for those of
the operation. -/
theorem alike_bodyOf :
    Alike (SameAround (o.statements false) (o.statements true)) (bodyOf (o.container false))
      (bodyOf (o.container true)) := by
  -- what is in front of the entries and behind them does not look at operations
  have hprologue : prologueOf (o.container true) = prologueOf (o.container false) := by
    simp only [prologueOf, stageOf_container, inputSignature_container]
  have hsteps : usedTempSteps (o.container true).program
      = usedTempSteps (o.container false).program := by
    simp only [usedTempSteps, usedRegisters_eq]
  have hentries := o.alike_entriesStatements (bodyContextOf (o.container false))
    (startOf (o.container false)) o.before
  rw [bodyOf_eq, bodyOf_eq, hsteps, hprologue, bodyContextOf_eq, startOf_eq, leadingTemps_eq,
    trailingCopies_eq, entriesOf_container, entriesOf_container]
  apply alike_bind
  apply hentries.bind
  apply alike_pure
  apply SameAround.append_right
  apply SameAround.append_left
  exact hentries.value

/-- The shaders have the same declarations. -/
theorem shader_eq (options : Options) :
    shader options (o.container true)
      = { shader options (o.container false) with body := (bodyOf (o.container true)).value } := by
  have himmediate : (o.container true).program.bind Program.immediateBuffer?
      = (o.container false).program.bind Program.immediateBuffer? := o.immediateBuffer?_eq
  simp only [shader, inputDeclarations, inputQualifier, contextOf_eq, declaredBuffers_eq,
    allDeclarations_eq, usedRegisters_eq, himmediate, o.alike_bodyOf.rawSlots, resources_container,
    inputSignature_container, outputSignature_container, stageOf_container, profile_container]

end Occurrence

/-- **An operation that saturates is limited and nothing else changes.** The shader is the same but
for the statements of the operation. Of these each assignment of a computed float has it limited
once, before it is converted for the register, and all others are the same. Neither the number of
open blocks nor anything that is left behind changes: the slots of the constant buffers that are
read as plain rows, the notices and the computations with words. -/
theorem saturation_only_limits (options : Options) (o : Occurrence) :
    (∃ front back : List Statement, ∀ saturate, shader options (o.container saturate)
      = { shader options (o.container false) with
          body := front ++ o.statements saturate ++ back }) ∧
    List.Forall₂ (fun s s' =>
        Limited (contextOf (o.container false)) o.operands o.type (copiesOf (o.container false))
            s s' ∧
          LimitedLines o.type s.lines s'.lines)
      (o.statements false) (o.statements true) ∧
    (∀ depth, depthAfter depth (o.head.withSaturate true) o.operands
      = depthAfter depth (o.head.withSaturate false) o.operands) ∧
    (bodyOf (o.container true)).rawSlots = (bodyOf (o.container false)).rawSlots ∧
    emitNotices (o.container true) = emitNotices (o.container false) ∧
    emitSteps (o.container true) = emitSteps (o.container false) := by
  have hbody := o.alike_bodyOf
  obtain ⟨front, back, hoff, hon⟩ := hbody.value
  refine ⟨⟨front, back, ?_⟩, ?_, fun _ => rfl, hbody.rawSlots.symm, hbody.notices.symm, ?_⟩
  · intro saturate
    cases saturate with
    | false =>
      rw [← hoff]
      rfl
    | true => rw [o.shader_eq, hon]
  · have hstatements := limitedAlike_operation (contextOf (o.container false))
      (copiesOf (o.container false)) (depthAtEnd 0 o.before == 0) o.head o.operands
    exact hstatements.value.imp fun _ _ h => ⟨h, h.lines⟩
  · simp only [emitSteps, Texture.collectSteps, o.contextOf_eq, ← hbody.steps, ← hbody.rawSlots,
      o.allDeclarations_eq, o.declaredBuffers_eq, Occurrence.resources_container]

/-- A float is limited as a float, and the bits are converted for a register of whole numbers. -/
example :
    let o : Occurrence :=
      { surrounding := .ofPayloads (.ofBytes #[]) []
          [.outputSignature ⟨[⟨"SV_Target", 0, .undefined, .uint32, 0, 15, 15, 0, .full⟩]⟩]
        header := ⟨4, 0, .pixel, []⟩
        before := []
        head := ⟨.add, 0, false, true, [], none⟩
        operands := [wholeRegister .output 0, wholeRegister .temp 0, wholeRegister .temp 1]
        after := [] }
    (o.statements true).flatMap Statement.lines
      = ["o0.xyzw = floatBitsToUint(clamp(r0.xyzw + r1.xyzw, 0.0, 1.0));"] := by
  decide +kernel

end Glsl
end ShaderBytecode
