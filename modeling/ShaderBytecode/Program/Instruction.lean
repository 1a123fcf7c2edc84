import ShaderBytecode.Bytes.Row
import ShaderBytecode.Program.Opcode
import ShaderBytecode.Program.Operand
import ShaderBytecode.Resource.Kind
import ShaderBytecode.Signature.Basic
import ShaderBytecode.Stage

/-!
# Programs

A program is a list of entries: declarations of what it uses, operations with their operands, and
blocks of custom data. An entry whose opcode is not known is kept as it is.
-/

namespace ShaderBytecode

/-! ### Operations -/

structure ReturnTypes where
  x : ReturnType
  y : ReturnType
  z : ReturnType
  w : ReturnType
deriving DecidableEq, Repr

inductive OpcodeExtension where
  /-- Texel offsets of a lookup. -/
  | sampleControls (u v w : Int)
  | resourceDimension (dimension : Dimension) (stride : Nat)
  | resourceReturnTypes (types : ReturnTypes)
  /-- An extension of another kind, as it stands. -/
  | other (token : UInt32)
deriving DecidableEq, Repr

structure OperationHead where
  opcode : Opcode
  /-- The word the operation begins with. -/
  token : UInt32
  /-- The result is clamped to the range from zero to one. -/
  saturate : Bool
  /-- A condition holds for values that are not zero, rather than for zero. -/
  testNonzero : Bool
  extensions : List OpcodeExtension
  /-- The place in a function table that a call through an interface names. -/
  functionIndex : Option UInt32
deriving DecidableEq, Repr

/-- The type of result that a size query asks for: 0 float, 1 reciprocal, 2 whole number. -/
def OperationHead.sizeQueryType (h : OperationHead) : Nat := (h.token.toNat >>> 11) % 4

/-- The operands of an operation by what they are for. Two, three or four operands are a destination
and its sources; what fewer or more are for depends on the opcode. -/
inductive OperandRoles where
  | unary (dst src : Operand)
  | binary (dst a b : Operand)
  | trinary (dst a b c : Operand)
  | generic (operands : List Operand)

def OperandRoles.ofList : List Operand → OperandRoles
  | [dst, src] => unary dst src
  | [dst, a, b] => binary dst a b
  | [dst, a, b, c] => trinary dst a b c
  | operands => generic operands

/-! ### Declarations -/

inductive SamplerMode where
  | default
  | comparison
  | mono
deriving DecidableEq, Repr

namespace SamplerMode

/-- The mode with a code; a code without one is the default. -/
def ofCode : Nat → SamplerMode
  | 1 => comparison
  | 2 => mono
  | _ => default

def name : SamplerMode → String
  | default => "Default"
  | comparison => "Comparison"
  | mono => "Mono"

end SamplerMode

/-- How an input of a pixel program is interpolated. -/
inductive Interpolation where
  | undefined
  | constant
  | linear
  | linearCentroid
  | linearNoPerspective
  | linearNoPerspectiveCentroid
  | linearSample
  | linearNoPerspectiveSample
deriving DecidableEq, Repr

namespace Interpolation

def all : List Interpolation :=
  [undefined, constant, linear, linearCentroid, linearNoPerspective, linearNoPerspectiveCentroid,
    linearSample, linearNoPerspectiveSample]

/-- The interpolation with a code; a code without one is undefined. -/
def ofCode (code : Nat) : Interpolation := all[code]?.getD undefined

def name : Interpolation → String
  | undefined => "Undefined"
  | constant => "Constant"
  | linear => "Linear"
  | linearCentroid => "LinearCentroid"
  | linearNoPerspective => "LinearNoPerspective"
  | linearNoPerspectiveCentroid => "LinearNoPerspectiveCentroid"
  | linearSample => "LinearSample"
  | linearNoPerspectiveSample => "LinearNoPerspectiveSample"

/-- The words of a GLSL declaration for an interpolation, each with a blank behind it. -/
def qualifier : Interpolation → String
  | undefined | linear => ""
  | constant => "flat "
  | linearCentroid => "centroid "
  | linearNoPerspective => "noperspective "
  | linearNoPerspectiveCentroid => "noperspective centroid "
  | linearSample => "sample "
  | linearNoPerspectiveSample => "noperspective sample "

end Interpolation

inductive Declaration where
  | globalFlags (flags : Nat)
  | constantBuffer (operand : Operand) (dynamicallyIndexed : Bool)
  | sampler (operand : Operand) (mode : SamplerMode)
  | resource (operand : Operand) (dimension : Dimension) (sampleCount : Nat)
      (returnTypes : ReturnTypes)
  | input (opcode : Opcode) (operand : Operand) (interpolation : Option Interpolation)
      (systemValue : Option SystemValue)
  | output (opcode : Opcode) (operand : Operand) (systemValue : Option SystemValue)
  | temps (count : UInt32)
  | indexableTemp (register count components : UInt32)
  | threadGroup (x y z : UInt32)
  /-- A declaration that is kept as its words, the first included. -/
  | other (opcode : Opcode) (words : List UInt32)

namespace Declaration

def opcode : Declaration → Opcode
  | globalFlags _ => .dclGlobalFlags
  | constantBuffer .. => .dclConstantBuffer
  | sampler .. => .dclSampler
  | resource .. => .dclResource
  | input opcode .. => opcode
  | output opcode .. => opcode
  | temps _ => .dclTemps
  | indexableTemp .. => .dclIndexableTemp
  | threadGroup .. => .dclThreadGroup
  | other opcode _ => opcode

/-- The register that is declared, where the declaration names it by an operand. -/
def operand? : Declaration → Option Operand
  | constantBuffer operand _ => some operand
  | sampler operand _ => some operand
  | resource operand _ _ _ => some operand
  | input _ operand _ _ => some operand
  | output _ operand _ => some operand
  | _ => none

end Declaration

/-! ### Entries -/

inductive CustomData where
  /-- A constant buffer whose contents are part of the program. -/
  | immediateBuffer (rows : List Row)
  /-- Comments, debug information and the like. -/
  | other (dataClass : Nat) (words : List UInt32)
deriving DecidableEq, Repr

inductive Instruction where
  | declaration (d : Declaration)
  | operation (head : OperationHead) (operands : List Operand)
  | customData (c : CustomData)
  /-- An entry with an opcode that is not known, with all its words. -/
  | unknown (number : Nat) (words : List UInt32)

namespace Instruction

/-- The short name of an entry. -/
def mnemonic : Instruction → String
  | declaration d => d.opcode.mnemonic
  | operation head _ => head.opcode.mnemonic
  | customData (.immediateBuffer _) => "dcl_immediateConstantBuffer"
  | customData (.other _ _) => "customdata"
  | unknown _ _ => "unknown"

def ownOperands : Instruction → List Operand
  | declaration d => d.operand?.toList
  | operation _ operands => operands
  | customData _ | unknown _ _ => []

/-- All operands of an entry, those within others included. -/
def operands (i : Instruction) : List Operand := i.ownOperands.flatMap Operand.preorder

end Instruction

/-! ### Programs -/

structure Program where
  majorVersion : UInt8
  minorVersion : UInt8
  stage : Stage
  instructions : List Instruction

namespace Program

/-- The stage and the shader model, as in `ps_5_0`. -/
def profile (p : Program) : String :=
  s!"{p.stage.letters}_{p.majorVersion.toNat}_{p.minorVersion.toNat}"

def declarations (p : Program) : List Declaration :=
  p.instructions.filterMap fun i =>
    match i with
    | .declaration d => some d
    | _ => none

/-- The first immediate constant buffer. -/
def immediateBuffer? (p : Program) : Option (List Row) :=
  p.instructions.findSome? fun i =>
    match i with
    | .customData (.immediateBuffer rows) => some rows
    | _ => none

def operands (p : Program) : List Operand := p.instructions.flatMap Instruction.operands

end Program
end ShaderBytecode
