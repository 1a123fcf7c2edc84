import ShaderBytecode.Glsl.Interface
import ShaderBytecode.Glsl.Lowering

/-!
# The body of `main`

The entries of a program become statements one after the other. What passes from one entry to the
next is a `BodyState`: how many blocks are open, whether the temporary registers have been declared,
and which opcodes have been reported as having no form in GLSL.

The temporary registers are declared where the program declares them, or first of all if it never
does; all that are used are declared, also those beyond the declared number.
-/

namespace ShaderBytecode
namespace Glsl

/-! ### Used registers -/

/-- Numbers in ascending order, each once. -/
def ascending (ns : List Nat) : List Nat := (ns.mergeSort (· ≤ ·)).eraseDups

/-- The registers of a file that any operand of a program names by its last index. -/
def usedRegisters (program : Option Program) (file : RegisterFile) : List Nat :=
  ascending ((program.toList.flatMap Program.operands).filterMap fun o =>
    if o.file = file then o.lastIndexValue?.map fun v => v.toUInt32.toNat else none)

/-- The number of temporary registers that are needed to have all that are used. -/
def usedTempCount (program : Option Program) : Nat :=
  match (usedRegisters program .temp).getLast? with
  | some last => last + 1
  | none => 0

def usedTempSteps (program : Option Program) : List WordStep :=
  (usedRegisters program .temp).getLast?.toList.map fun last => .sum last 1

/-! ### Declarations within the body -/

def declarationComment (d : Declaration) : String :=
  let mnemonic := d.opcode.mnemonic
  let number (o : Operand) : String := toString ((o.register?.map (·.toNat)).getD 0)
  let interface (o : Operand) (systemValue : Option SystemValue) : String :=
    let register := match o.register? with
      | some r => toString r.toNat
      | none => ""
    let value := match systemValue with
      | some v => " " ++ v.text
      | none => ""
    s!"{mnemonic} {o.file.letters}" ++ register ++ Lane.selectionText (o.selected .all) ++ value
  match d with
  | .temps count => s!"{mnemonic} {count.toNat}"
  | .indexableTemp register count components =>
    s!"{mnemonic} x{register.toNat}[{count.toNat}], {components.toNat}"
  | .globalFlags flags => s!"{mnemonic} {Hex.literal flags}"
  | .constantBuffer operand _ =>
    let rows := (operand.indices[1]?.map (·.value.toNat)).getD 0
    s!"{mnemonic} cb{number operand}[{rows}]"
  | .sampler operand mode => s!"{mnemonic} s{number operand} {mode.name}"
  | .resource operand dimension _ _ => s!"{mnemonic} t{number operand} {dimension.name}"
  | .input _ operand _ systemValue => interface operand systemValue
  | .output _ operand systemValue => interface operand systemValue
  | .threadGroup x y z => s!"{mnemonic} {x.toNat}, {y.toNat}, {z.toNat}"
  | .other _ words => s!"{mnemonic} ({words.length} dwords)"

def tempDeclarations (count : Nat) : List Statement :=
  (List.range count).map fun n => .declare .vec4 (.register .temp n)

/-- What a declaration leaves in the body besides its comment. -/
def declarationStatements (usedTemps : Nat) (tempsDeclared : Bool) (d : Declaration) :
    List Statement :=
  match d with
  -- declared once; a later number does not count, the used registers do
  | .temps count => if tempsDeclared then [] else tempDeclarations (max count.toNat usedTemps)
  | .indexableTemp register count _ =>
    [.declareArray .vec4 (.register .indexableTemp register.toNat) count.toNat]
  | _ => []

def isTemps : Declaration → Bool
  | .temps _ => true
  | _ => false

/-! ### Entries -/

structure BodyState where
  /-- The number of open blocks. -/
  depth : Nat
  tempsDeclared : Bool
  /-- The opcodes that have been reported as having no form in GLSL. -/
  reported : List Opcode

structure BodyContext where
  context : Context
  copies : List Assignment
  usedTemps : Nat

def entryStatements (ctx : BodyContext) (s : BodyState) : Instruction → Traced (List Statement)
  | .declaration d =>
    return .comment (declarationComment d)
      :: declarationStatements ctx.usedTemps s.tempsDeclared d
  | .operation head operands =>
    -- a return leaves `main` only where no block is open
    operation ctx.context ctx.copies (s.depth == 0) head operands
  | .customData (.immediateBuffer rows) =>
    return [.comment s!"dcl_immediateConstantBuffer {rows.length} values"]
  | .customData (.other dataClass words) =>
    return [.comment s!"customdata class {dataClass}, {words.length} dwords"]
  | .unknown number words =>
    return [.comment s!"unknown opcode {number}, {words.length} dwords"]

/-- The opcodes among some statements that have no form in GLSL and have not been reported. -/
def unreported (reported : List Opcode) (statements : List Statement) : List Opcode :=
  statements.filterMap fun t =>
    match t with
    | .unmapped opcode => if opcode ∈ reported then none else some opcode
    | _ => none

def stateAfter (s : BodyState) (i : Instruction) (statements : List Statement) : BodyState where
  depth := match i with
    | .operation head operands => depthAfter s.depth head operands
    | _ => s.depth
  tempsDeclared := s.tempsDeclared || match i with
    | .declaration d => isTemps d
    | _ => false
  reported := s.reported ++ unreported s.reported statements

def entriesStatements (ctx : BodyContext) (s : BodyState) :
    List Instruction → Traced (List Statement)
  | [] => return []
  | i :: rest => do
    let statements ← entryStatements ctx s i
    -- an opcode is reported where it is met first
    (unreported s.reported statements).forM fun opcode => Traced.notice (.unmapped opcode)
    let more ← entriesStatements ctx (stateAfter s i statements) rest
    return statements ++ more

/-- The number of open blocks after all entries. -/
def depthAtEnd (depth : Nat) (instructions : List Instruction) : Nat :=
  instructions.foldl (fun depth i =>
    match i with
    | .operation head operands => depthAfter depth head operands
    | _ => depth) depth

/-- A program ends with a return outside of all blocks. -/
def endsWithReturn (instructions : List Instruction) : Bool :=
  match instructions.getLast? with
  | some (.operation head operands) =>
    isGeneral operands && head.opcode == .ret && depthAtEnd 0 instructions == 0
  | _ => false

/-- The body of `main`: the values of provided inputs, the temporary registers unless the program
declares them itself, the entries, and the copies into provided outputs unless a return has made
them. -/
def body (ctx : BodyContext) (prologue : List Assignment) (program : Option Program) :
    Traced (List Statement) := do
  let instructions := program.toList.flatMap (·.instructions)
  let declares := (program.toList.flatMap Program.declarations).any isTemps
  let temps := if declares then [] else tempDeclarations ctx.usedTemps
  Traced.compute (usedTempSteps program)
  let statements ← entriesStatements ctx ⟨0, !declares, []⟩ instructions
  -- a return at the end has copied already
  let copies := if endsWithReturn instructions then [] else ctx.copies.map Statement.assign
  return prologue.map .assign ++ temps ++ statements ++ copies

end Glsl
end ShaderBytecode
