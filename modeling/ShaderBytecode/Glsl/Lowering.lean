import ShaderBytecode.Glsl.Operation

/-!
# Operations as statements

Each operation becomes an assignment to its destination, or two if it has two destinations; an
operation without a form in GLSL leaves a comment. Control flow is not rebuilt: its operations leave
comments, and between the start and the end of a block nothing returns. Outside of blocks a return
is a return, after the copies into provided outputs have been made.
-/

namespace ShaderBytecode
namespace Glsl

/-! ### Comments -/

/-- An operand as a disassembler prints it. -/
def operandText (o : Operand) : String :=
  match o.literals with
  | some literals =>
    let values := match literals with
      | .bits32 values => values.map fun v => Hex.literal v.toNat
      | .bits64 values => values.map fun v => Hex.literal v.toNat
    "l(" ++ ", ".intercalate values ++ ")"
  | none =>
    let number := match o.register? with
      | some r => toString r.toNat
      | none => ""
    o.file.letters ++ number ++ Lane.selectionText (o.selected .all)

def conditionSuffix (head : OperationHead) : String :=
  match head.opcode with
  | .beginIf | .breakIf | .continueIf | .retIf | .discard | .callIf =>
    if head.testNonzero then "_nz" else "_z"
  | _ => ""

/-- The comment that stands for an operation of control flow. -/
def controlFlowComment (head : OperationHead) (operands : List Operand) : Statement :=
  let arguments :=
    if operands.isEmpty then "" else " " ++ ", ".intercalate (operands.map operandText)
  .comment (head.opcode.mnemonic ++ conditionSuffix head ++ arguments)

/-! ### Assignments -/

def unmapped (head : OperationHead) : List Statement := [.unmapped head.opcode]

/-- The statements for a destination; there are none if the operand stands for no destination. -/
def toDestination (ctx : Context) (dst : Operand)
    (statements : Destination → Traced (List Statement)) : Traced (List Statement) := do
  match ← destination ctx dst with
  | none => return []
  | some d => statements d

/-- The assignment of a value to a destination of an operation. -/
def assignment (d : Destination) (head : OperationHead) (value : Expr) (type : NumberType) :
    Statement :=
  .assign (d.assign value type head.saturate)

def unary (ctx : Context) (head : OperationHead) (dst src : Operand) : Traced (List Statement) :=
  toDestination ctx dst fun d => do
    -- the source is read with the type of the operation, and for the lanes that are written
    let a ← src.source ctx d.mask head.opcode.sourceType
    match unaryValue? head.opcode d.width a with
    | none => return unmapped head
    | some value => return [assignment d head value head.opcode.resultType]

/-- A lookup of a texture with the given call, which knows the number type of its result. -/
def textureLookup (ctx : Context) (head : OperationHead) (dst resource : Operand)
    (call : Texture → Expr → Traced (NumberType × Expr)) : Traced (List Statement) :=
  toDestination ctx dst fun d => do
    -- the search is part of the computation, also where nothing is found
    Traced.compute (lookupSteps ctx resource)
    match lookup? ctx resource with
    | none => return unmapped head
    | some (texture, sampler) =>
      let (type, value) ← call texture sampler
      return [assignment d head (picked value resource d.mask) type]

def sample (ctx : Context) (head : OperationHead) (dst address resource : Operand)
    (sampling : Sampling) : Traced (List Statement) :=
  textureLookup ctx head dst resource fun texture sampler => do
    return (texture.numberType, ← sampleCall ctx head address sampling texture sampler)

def fetch (ctx : Context) (head : OperationHead) (dst address resource : Operand)
    (number : Option Operand) : Traced (List Statement) :=
  textureLookup ctx head dst resource fun texture sampler => do
    return (texture.numberType, ← fetchCall ctx head address number texture sampler)

/-- The sine for the first destination, then the cosine for the second. -/
def sincos (ctx : Context) (head : OperationHead) (sinDst cosDst value : Operand) :
    Traced (List Statement) := do
  let assign (dst : Operand) (f : Function) : Traced (List Statement) :=
    toDestination ctx dst fun d => do
      let a ← value.source ctx d.mask .float
      return [assignment d head (.call f [a]) .float]
  -- both statements stand for the sources, the second behind what the first has written
  let sin ← assign sinDst .sin
  let cos ← assign cosDst .cos
  return sin ++ cos

/-- The quotient for the first destination, then the remainder for the second. -/
def divide (ctx : Context) (head : OperationHead) (quotientDst remainderDst a b : Operand) :
    Traced (List Statement) := do
  let assign (dst : Operand) (operator : BinaryOperator) : Traced (List Statement) :=
    toDestination ctx dst fun d => do
      let x ← a.source ctx d.mask .uint
      let y ← b.source ctx d.mask .uint
      return [assignment d head (.binary operator x y) .uint]
  let quotient ← assign quotientDst .divide
  let remainder ← assign remainderDst .remainder
  return quotient ++ remainder

/-- The high half of a product for the first destination, then the low half for the second. -/
def multiplyWide (ctx : Context) (head : OperationHead) (highDst lowDst a b : Operand) :
    Traced (List Statement) := do
  let type := head.opcode.resultType
  let f : Function := if type = .int then .imulExtended else .umulExtended
  -- the product of whole words has its halves in two variables; the high one is assigned from there
  let high ← toDestination ctx highDst fun d => do
    let x ← a.source ctx d.mask type
    let y ← b.source ctx d.mask type
    let half := (Expr.name .high).convert type d.type d.width
    return [.wideProduct ⟨type, d.width⟩ f x y ⟨d.target, half⟩]
  let low ← toDestination ctx lowDst fun d => do
    let x ← a.source ctx d.mask type
    let y ← b.source ctx d.mask type
    return [assignment d head (.binary .multiply x y) type]
  return high ++ low

def binary (ctx : Context) (head : OperationHead) (dst a b : Operand) :
    Traced (List Statement) :=
  match head.opcode with
  | .sincos => sincos ctx head dst a b
  | .ld => fetch ctx head dst a b none
  | .resinfo => textureLookup ctx head dst b (sizeQuery ctx head a)
  | opcode =>
    toDestination ctx dst fun d =>
      match binaryForm? opcode with
      | none => return unmapped head
      | some form => do
        -- a dot product reads lanes that its destination need not write
        let mask := form.sourceMask d.mask
        let x ← a.source ctx mask opcode.sourceType
        let y ← b.source ctx mask opcode.sourceType
        return [assignment d head (form.value d.width x y) opcode.resultType]

def extractLanes (ctx : Context) (opcode : Opcode) (mask : LaneMask)
    (width offset value : Operand) : Traced Expr := do
  let lanes ← mask.lanes.mapM fun lane => do
    let w ← width.source ctx (.single lane) opcode.sourceType
    let o ← offset.source ctx (.single lane) opcode.sourceType
    let v ← value.source ctx (.single lane) opcode.sourceType
    return extractValue opcode.resultType w o v
  match lanes with
  | [lane] => return lane
  | _ => return .construct ⟨opcode.resultType, lanes.length⟩ lanes

/-- The value of a form with three sources for a destination mask. -/
def ternaryValue (ctx : Context) (opcode : Opcode) (form : TernaryForm) (mask : LaneMask)
    (a b c : Operand) : Traced Expr := do
  match form with
  | .fusedMultiplyAdd =>
    let x ← a.source ctx mask opcode.sourceType
    let y ← b.source ctx mask opcode.sourceType
    let z ← c.source ctx mask opcode.sourceType
    return .call .fma [x, y, z]
  | .multiplyAdd =>
    let x ← a.source ctx mask opcode.sourceType
    let y ← b.source ctx mask opcode.sourceType
    let z ← c.source ctx mask opcode.sourceType
    return .binary .add (.binary .multiply x y) z
  | .choose =>
    let condition ← a.source ctx mask .uint
    let yes ← b.source ctx mask opcode.resultType
    let no ← c.source ctx mask opcode.resultType
    return chooseValue mask.width condition yes no
  | .extractBits => extractLanes ctx opcode mask a b c

def ternary (ctx : Context) (head : OperationHead) (dst a b c : Operand) :
    Traced (List Statement) :=
  match head.opcode with
  | .udiv => divide ctx head dst a b c
  | .imul | .umul => multiplyWide ctx head dst a b c
  | .sample => sample ctx head dst a b .plain
  | .ldMs => fetch ctx head dst a b (some c)
  | opcode =>
    toDestination ctx dst fun d =>
      match ternaryForm? opcode with
      | none => return unmapped head
      | some form => do
        let value ← ternaryValue ctx opcode form d.mask a b c
        return [assignment d head value opcode.resultType]

/-! ### Control flow and the rest -/

/-- The condition of an operation, compared with zero as the operation says. -/
def condition (ctx : Context) (head : OperationHead) (o : Operand) : Traced Expr := do
  let e ← o.source ctx (.single .x) .uint
  return .binary (if head.testNonzero then .notEqual else .equal) e .falseBits

/-- An operation whose number of operands is none of two, three and four. `copies` are made before
every return, and `outside` says that no block is open. -/
def general (ctx : Context) (copies : List Assignment) (outside : Bool) (head : OperationHead)
    (operands : List Operand) : Traced (List Statement) :=
  let comment : Traced (List Statement) := return [controlFlowComment head operands]
  match head.opcode, operands with
  -- in a block nothing is known of where control comes from, so the return is a comment
  | .ret, [] => if outside then return copies.map .assign ++ [.leave] else comment
  | .retIf, [o] =>
    if outside then return [.returnIf (← condition ctx head o) copies] else comment
  | .discard, [o] =>
    if outside then return [.discardIf (← condition ctx head o)] else comment
  | .beginIf, _ | .beginLoop, _ | .beginSwitch, _ | .endIf, _ | .endLoop, _ | .endSwitch, _
  | .ret, _ | .retIf, _ | .discard, _ | .elseBranch, _ | .caseLabel, _ | .defaultLabel, _
  | .breakOut, _ | .breakIf, _ | .continueOn, _ | .continueIf, _ | .label, _ | .nop, _
  | .sync, _ => comment
  | .sampleL, [dst, address, resource, _, lod] =>
    sample ctx head dst address resource (.lod lod)
  | .sampleB, [dst, address, resource, _, bias] =>
    sample ctx head dst address resource (.bias bias)
  | .sampleD, [dst, address, resource, _, x, y] =>
    sample ctx head dst address resource (.gradient x y)
  | _, _ => return unmapped head

def operation (ctx : Context) (copies : List Assignment) (outside : Bool) (head : OperationHead)
    (operands : List Operand) : Traced (List Statement) :=
  match OperandRoles.ofList operands with
  | .unary dst src => unary ctx head dst src
  | .binary dst a b => binary ctx head dst a b
  | .trinary dst a b c => ternary ctx head dst a b c
  | .generic operands => general ctx copies outside head operands

/-- An operation is lowered by its general form, and not as one with a destination and sources. -/
def isGeneral (operands : List Operand) : Bool :=
  match OperandRoles.ofList operands with
  | .generic _ => true
  | _ => false

/-- The number of open blocks after an operation. -/
def depthAfter (depth : Nat) (head : OperationHead) (operands : List Operand) : Nat :=
  if isGeneral operands then
    match head.opcode with
    | .beginIf | .beginLoop | .beginSwitch => depth + 1
    | .endIf | .endLoop | .endSwitch => depth - 1
    | _ => depth
  else depth

end Glsl
end ShaderBytecode
