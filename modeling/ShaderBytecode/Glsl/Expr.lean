import ShaderBytecode.Decimal.Style
import ShaderBytecode.Program.Opcode
import ShaderBytecode.Program.Operand
import ShaderBytecode.Text.Hex

/-!
# Expressions

The part of GLSL expressions that lowering uses. An expression is written without any brackets of
its own, so an operand that needs them is an explicit `Expr.group`.

`Expr.convert` reads a value of one number type as another: the bits of floats and whole numbers are
kept, while conversions to and from doubles, and between whole numbers, construct a new value.
-/

namespace ShaderBytecode
namespace Glsl

/-! ### Types and names -/

/-- The type of a value: some components of one number type. -/
structure ValueType where
  scalar : NumberType
  lanes : Nat
deriving DecidableEq, Repr

def ValueType.text (t : ValueType) : String :=
  let (scalar, letter) := match t.scalar with
    | .float => ("float", "")
    | .int => ("int", "i")
    | .uint => ("uint", "u")
    | .double => ("double", "d")
  if t.lanes ≤ 1 then scalar else s!"{letter}vec{t.lanes}"

def ValueType.vec4 : ValueType := ⟨.float, 4⟩

/-- A name for something that resource definitions call `name`: what cannot be part of an identifier
becomes an underscore, and one is put in front of what cannot begin an identifier. -/
def identifier (name : String) : String :=
  let body := name.toList.map fun c => if c.isAlphanum || c == '_' then c else '_'
  let reserved := match body with
    | [] => true
    | c :: _ => c.isDigit || body.take 3 == ['g', 'l', '_']
  String.ofList (if reserved then '_' :: body else body)

inductive ProvidedVariable where
  | fragCoord
  | fragDepth
  | frontFacing
  | globalInvocationId
  | instanceId
  | invocationId
  | localInvocationId
  | localInvocationIndex
  | position
  | primitiveId
  | sampleId
  | sampleMask
  | sampleMaskIn
  | tessCoord
  | vertexId
  | workGroupId
deriving DecidableEq, Repr

def ProvidedVariable.text : ProvidedVariable → String
  | fragCoord => "gl_FragCoord"
  | fragDepth => "gl_FragDepth"
  | frontFacing => "gl_FrontFacing"
  | globalInvocationId => "gl_GlobalInvocationID"
  | instanceId => "gl_InstanceID"
  | invocationId => "gl_InvocationID"
  | localInvocationId => "gl_LocalInvocationID"
  | localInvocationIndex => "gl_LocalInvocationIndex"
  | position => "gl_Position"
  | primitiveId => "gl_PrimitiveID"
  | sampleId => "gl_SampleID"
  | sampleMask => "gl_SampleMask"
  | sampleMaskIn => "gl_SampleMaskIn"
  | tessCoord => "gl_TessCoord"
  | vertexId => "gl_VertexID"
  | workGroupId => "gl_WorkGroupID"

inductive Name where
  /-- A register, named by the letters of its file and its number. -/
  | register (file : RegisterFile) (number : Nat)
  /-- The array of the immediate constant buffer. -/
  | immediateBuffer
  /-- The array of the rows of the constant buffer at a slot. -/
  | bufferRows (slot : UInt32)
  /-- A member of a uniform block. -/
  | member (identifier : String)
  /-- A sampler. -/
  | sampler (identifier : String)
  | provided (v : ProvidedVariable)
  /-- The high half of a product. -/
  | high
  /-- The low half of a product. -/
  | low
deriving DecidableEq, Repr

def Name.text : Name → String
  | register file number => s!"{file.letters}{number}"
  | immediateBuffer => "icb"
  | bufferRows slot => s!"cb{slot.toNat}"
  | member identifier => identifier
  | sampler identifier => identifier
  | provided v => v.text
  | high => "msb"
  | low => "lsb"

/-! ### Functions and operators -/

inductive Function where
  | floatBitsToInt | floatBitsToUint | intBitsToFloat | uintBitsToFloat | packDouble2x32
  | abs | sign | floor | ceil | fract | roundEven | sqrt | inversesqrt | exp2 | log2 | sin | cos
  | min | max | clamp | mix | fma | dot
  | equal | notEqual | lessThan | greaterThanEqual
  | dFdx | dFdy | dFdxCoarse | dFdyCoarse | dFdxFine | dFdyFine
  | bitfieldReverse | bitfieldExtract | bitCount | findLSB | imulExtended | umulExtended
  | texture | textureOffset | textureLod | textureLodOffset | textureGrad | textureGradOffset
  | texelFetch | texelFetchOffset | textureSize | textureQueryLevels
deriving DecidableEq, Repr

def Function.text : Function → String
  | floatBitsToInt => "floatBitsToInt"
  | floatBitsToUint => "floatBitsToUint"
  | intBitsToFloat => "intBitsToFloat"
  | uintBitsToFloat => "uintBitsToFloat"
  | packDouble2x32 => "packDouble2x32"
  | abs => "abs"
  | sign => "sign"
  | floor => "floor"
  | ceil => "ceil"
  | fract => "fract"
  | roundEven => "roundEven"
  | sqrt => "sqrt"
  | inversesqrt => "inversesqrt"
  | exp2 => "exp2"
  | log2 => "log2"
  | sin => "sin"
  | cos => "cos"
  | min => "min"
  | max => "max"
  | clamp => "clamp"
  | mix => "mix"
  | fma => "fma"
  | dot => "dot"
  | equal => "equal"
  | notEqual => "notEqual"
  | lessThan => "lessThan"
  | greaterThanEqual => "greaterThanEqual"
  | dFdx => "dFdx"
  | dFdy => "dFdy"
  | dFdxCoarse => "dFdxCoarse"
  | dFdyCoarse => "dFdyCoarse"
  | dFdxFine => "dFdxFine"
  | dFdyFine => "dFdyFine"
  | bitfieldReverse => "bitfieldReverse"
  | bitfieldExtract => "bitfieldExtract"
  | bitCount => "bitCount"
  | findLSB => "findLSB"
  | imulExtended => "imulExtended"
  | umulExtended => "umulExtended"
  | texture => "texture"
  | textureOffset => "textureOffset"
  | textureLod => "textureLod"
  | textureLodOffset => "textureLodOffset"
  | textureGrad => "textureGrad"
  | textureGradOffset => "textureGradOffset"
  | texelFetch => "texelFetch"
  | texelFetchOffset => "texelFetchOffset"
  | textureSize => "textureSize"
  | textureQueryLevels => "textureQueryLevels"

inductive UnaryOperator where
  | negate
  | complement
deriving DecidableEq, Repr

def UnaryOperator.text : UnaryOperator → String
  | negate => "-"
  | complement => "~"

inductive BinaryOperator where
  | add | multiply | divide | remainder
  | bitAnd | bitOr | bitXor | shiftLeft | shiftRight
  | equal | notEqual | less | greaterEqual
deriving DecidableEq, Repr

def BinaryOperator.text : BinaryOperator → String
  | add => "+"
  | multiply => "*"
  | divide => "/"
  | remainder => "%"
  | bitAnd => "&"
  | bitOr => "|"
  | bitXor => "^"
  | shiftLeft => "<<"
  | shiftRight => ">>"
  | equal => "=="
  | notEqual => "!="
  | less => "<"
  | greaterEqual => ">="

/-! ### Expressions -/

inductive Expr where
  | name (n : Name)
  /-- An element of an array. -/
  | element (array position : Expr)
  /-- Some components of a vector. -/
  | components (vector : Expr) (lanes : List Lane)
  | integer (n : Int)
  | unsigned (n : UInt32)
  /-- An unsigned number, written in hexadecimal. -/
  | pattern (n : UInt32)
  /-- A float, given by its bits; it is zero or has full precision. -/
  | float (bits : UInt32)
  /-- A finite double, given by its bits. -/
  | double (bits : UInt64)
  | call (f : Function) (arguments : List Expr)
  /-- A value of a type, made from others. -/
  | construct (type : ValueType) (arguments : List Expr)
  | unary (operator : UnaryOperator) (operand : Expr)
  | binary (operator : BinaryOperator) (left right : Expr)
  /-- One of two values, depending on a condition. -/
  | choose (condition yes no : Expr)
  /-- An expression in brackets. -/
  | group (inner : Expr)

/-- Numbers are written positionally from `0.0001` up to below ten to the sixteenth; exponents have
no plus sign. -/
def numberStyle : DecimalStyle := ⟨-4, 16, false, .up⟩

namespace Expr

mutual

def text : Expr → String
  | name n => n.text
  | element array position => array.text ++ "[" ++ position.text ++ "]"
  | components vector lanes => vector.text ++ Lane.selectionText lanes
  | integer n => toString n
  | unsigned n => s!"{n.toNat}u"
  | pattern n => s!"{Hex.literal n.toNat}u"
  | float bits => numberStyle.number .binary32 bits.toNat
  | double bits => numberStyle.number .binary64 bits.toNat ++ "lf"
  | call f arguments => f.text ++ "(" ++ textOfArguments arguments ++ ")"
  | construct type arguments => type.text ++ "(" ++ textOfArguments arguments ++ ")"
  | unary operator operand => operator.text ++ operand.text
  | binary operator left right => left.text ++ " " ++ operator.text ++ " " ++ right.text
  | choose condition yes no => condition.text ++ " ? " ++ yes.text ++ " : " ++ no.text
  | group inner => "(" ++ inner.text ++ ")"

def textOfArguments : List Expr → String
  | [] => ""
  | e :: es => e.text ++ textOfMoreArguments es

/-- Arguments behind the first as text. -/
def textOfMoreArguments : List Expr → String
  | [] => ""
  | e :: es => ", " ++ e.text ++ textOfMoreArguments es

end

/-! ### Building expressions -/

def natural (n : Nat) : Expr := integer n

/-- Some components of a vector, or all of it if none are named. -/
def select (e : Expr) (lanes : List Lane) : Expr :=
  if lanes.isEmpty then e else components e lanes

def one : Expr := float 0x3F800000

def zero : Expr := float 0

/-- What a true comparison leaves in a register. -/
def trueBits : Expr := pattern 0xFFFFFFFF

/-- What a false comparison leaves in a register. -/
def falseBits : Expr := unsigned 0

/-- A value of one number type read as another. -/
def convert (e : Expr) (source target : NumberType) (lanes : Nat) : Expr :=
  if source = target then e
  else match source, target with
    | .float, .int => call .floatBitsToInt [e]
    | .float, .uint => call .floatBitsToUint [e]
    | .int, .float => call .intBitsToFloat [e]
    | .uint, .float => call .uintBitsToFloat [e]
    | _, target => construct ⟨target, lanes⟩ [e]

/-- The whole number zero, read as another number type. -/
def zeroAs (target : NumberType) (lanes : Nat) : Expr := convert (integer 0) .int target lanes

/-! ### Literals -/

/-- A float with exactly the given bits. Where no decimal is sure to keep them, the bits are spelled
out. -/
def floatLiteral (bits : UInt32) : Expr :=
  if BinaryFormat.binary32.isZero bits.toNat ∨ BinaryFormat.binary32.isNormal bits.toNat then
    float bits
  else call .uintBitsToFloat [pattern bits]

/-- A double with exactly the given bits. -/
def doubleLiteral (bits : UInt64) : Expr :=
  if BinaryFormat.binary64.isFinite bits.toNat then double bits
  else call .packDouble2x32
    [construct ⟨.uint, 2⟩ [pattern bits.toUInt32, pattern (bits >>> 32).toUInt32]]

/-- The number that the bits of a signed word stand for. -/
def signed (bits : UInt32) : Expr := integer bits.toInt32.toInt

/-- A literal of 32 bits with the type of the instruction that uses it. -/
def literal32 (type : NumberType) (bits : UInt32) : Expr :=
  match type with
  | .float => floatLiteral bits
  | .int => signed bits
  | .uint => unsigned bits
  | .double =>
    doubleLiteral (UInt64.ofNat (BinaryFormat.binary32.convert .binary64 bits.toNat))

/-- A literal of 64 bits with the type of the instruction that uses it. -/
def literal64 (type : NumberType) (bits : UInt64) : Expr :=
  match type with
  | .float =>
    floatLiteral (UInt32.ofNat (BinaryFormat.binary64.convert .binary32 bits.toNat))
  | .int => signed bits.toUInt32
  | .uint => unsigned bits.toUInt32
  | .double => doubleLiteral bits

/-- The literal for a lane, if there is one. -/
def literal? (literals : Literals) (lane : Lane) (type : NumberType) : Option Expr :=
  match literals with
  | .bits32 values => (Literals.valueAt? values lane.val).map (literal32 type)
  | .bits64 values => (Literals.valueAt? values lane.val).map (literal64 type)

end Expr
end Glsl
end ShaderBytecode
