import ShaderBytecode.Glsl.Source

/-!
# Operations

What an operation computes, as expressions over its lowered sources. Operations with one source
are functions of it; those with two or three sources fall into a few forms, which `BinaryForm` and
`TernaryForm` list.

A comparison leaves all bits set in the lanes where it holds. A single lane is compared by an
operator and chosen from, several lanes are compared and mixed by functions.
-/

namespace ShaderBytecode
namespace Glsl

/-! ### One source -/

/-- The value of an operation with one source for some lanes. -/
def unaryValue? (opcode : Opcode) (lanes : Nat) (a : Expr) : Option Expr :=
  let uint : ValueType := ⟨.uint, lanes⟩
  match opcode with
  | .mov | .dmov => some a
  | .rsq => some (.call .inversesqrt [a])
  | .sqrt => some (.call .sqrt [a])
  | .log => some (.call .log2 [a])
  | .exp => some (.call .exp2 [a])
  | .frc => some (.call .fract [a])
  | .rcp => some (.binary .divide .one a)
  | .drcp => some (.binary .divide (.double 0x3FF0000000000000) a)
  | .roundNi => some (.call .floor [a])
  | .roundPi => some (.call .ceil [a])
  | .roundNe => some (.call .roundEven [a])
  | .roundZ =>
    some (.binary .multiply (.call .sign [a]) (.call .floor [.call .abs [a]]))
  | .ftoi | .ftou | .itof | .utof | .dtof | .ftod | .dtoi | .dtou | .itod | .utod =>
    some (.construct ⟨opcode.resultType, lanes⟩ [a])
  | .derivRtx => some (.call .dFdx [a])
  | .derivRty => some (.call .dFdy [a])
  | .derivRtxCoarse => some (.call .dFdxCoarse [a])
  | .derivRtyCoarse => some (.call .dFdyCoarse [a])
  | .derivRtxFine => some (.call .dFdxFine [a])
  | .derivRtyFine => some (.call .dFdyFine [a])
  | .bitNot => some (.unary .complement (.group a))
  | .ineg => some (.unary .negate (.group a))
  | .bfrev => some (.call .bitfieldReverse [a])
  | .countbits => some (.construct uint [.call .bitCount [a]])
  | .firstbitLo => some (.construct uint [.call .findLSB [a]])
  | .firstbitHi => some (.construct uint [.call .findLSB [.call .bitfieldReverse [a]]])
  | .firstbitShi =>
    -- the sign is spread over the word, so that zeros are searched for in negative numbers
    let signs := Expr.group (.binary .shiftRight a (.integer 31))
    some (.construct uint [.call .findLSB [.call .bitfieldReverse
      [.construct uint [.binary .bitXor a signs]]]])
  | _ => none

/-! ### Two sources -/

inductive BinaryForm where
  /-- The dot product of the first components. -/
  | dot (count : Nat)
  | function (f : Function)
  /-- A comparison: the operator for one lane, the function for several. -/
  | compare (operator : BinaryOperator) (f : Function)
  | operator (operator : BinaryOperator)
deriving DecidableEq, Repr

def operator? : Opcode → Option BinaryOperator
  | .add | .iadd | .dadd => some .add
  | .mul | .dmul => some .multiply
  | .div | .ddiv => some .divide
  | .bitAnd => some .bitAnd
  | .bitOr => some .bitOr
  | .bitXor => some .bitXor
  | .ishl => some .shiftLeft
  | .ishr | .ushr => some .shiftRight
  | _ => none

/-- What an operation with two sources computes. -/
def binaryForm? (opcode : Opcode) : Option BinaryForm :=
  match opcode with
  | .dp2 => some (.dot 2)
  | .dp3 => some (.dot 3)
  | .dp4 => some (.dot 4)
  | .min | .imin | .umin | .dmin | .atomicImin | .atomicUmin => some (.function .min)
  | .max | .imax | .umax | .dmax | .atomicImax | .atomicUmax => some (.function .max)
  | .eq | .ieq | .deq => some (.compare .equal .equal)
  | .ne | .ine | .dne => some (.compare .notEqual .notEqual)
  | .lt | .ilt | .ult | .dlt => some (.compare .less .lessThan)
  | .ge | .ige | .uge | .dge => some (.compare .greaterEqual .greaterThanEqual)
  | _ => (operator? opcode).map .operator

/-- The lanes of the sources that a form reads for a destination mask. -/
def BinaryForm.sourceMask (form : BinaryForm) (mask : LaneMask) : LaneMask :=
  match form with
  | .dot count => .first count
  | _ => mask

def BinaryForm.value (form : BinaryForm) (lanes : Nat) (a b : Expr) : Expr :=
  match form with
  | .dot _ =>
    let product := Expr.call .dot [a, b]
    -- a dot product is one number, which all lanes of the destination get
    if 1 < lanes then .construct ⟨.float, lanes⟩ [product] else product
  | .function f => .call f [a, b]
  | .compare op f =>
    if lanes = 1 then .choose (.binary op a b) .trueBits .falseBits
    else
      let uint : ValueType := ⟨.uint, lanes⟩
      .call .mix [.construct uint [.falseBits], .construct uint [.trueBits], .call f [a, b]]
  | .operator op => .binary op a b

/-! ### Three sources -/

inductive TernaryForm where
  /-- A product and a sum, rounded once. -/
  | fusedMultiplyAdd
  | multiplyAdd
  /-- One of two values by a condition in each lane. -/
  | choose
  /-- Bits from within each lane. -/
  | extractBits
deriving DecidableEq, Repr

/-- What an operation with three sources computes. -/
def ternaryForm? : Opcode → Option TernaryForm
  | .mad | .dfma => some .fusedMultiplyAdd
  | .imad | .umad => some .multiplyAdd
  | .movc | .dmovc => some .choose
  | .ubfe | .ibfe => some .extractBits
  | _ => none

/-- The choice of a value for some lanes. -/
def chooseValue (lanes : Nat) (condition yes no : Expr) : Expr :=
  if lanes = 1 then .choose (.binary .notEqual condition .falseBits) yes no
  else .call .mix [no, yes, .call .notEqual [condition, .construct ⟨.uint, lanes⟩ [.falseBits]]]

/-- The bits of one lane of a value from an offset on. Only the lowest five bits of the offset and
the width count. -/
def extractValue (type : NumberType) (width offset value : Expr) : Expr :=
  let bits := if type = .uint then Expr.unsigned 31 else .integer 31
  let low (e : Expr) := Expr.construct ⟨.int, 1⟩ [.binary .bitAnd e bits]
  .call .bitfieldExtract [value, low offset, low width]

/-! ### Sampling -/

inductive Sampling where
  | plain
  | lod (o : Operand)
  | bias (o : Operand)
  | gradient (x y : Operand)

/-- The texel offset of an operation in a texture of some shape. -/
def texelOffset? (head : OperationHead) (dimension : Dimension) : Option Expr := do
  let (u, v, w) ← head.extensions.findSome? fun e =>
    match e with
    | .sampleControls u v w => some (u, v, w)
    | _ => none
  if (u, v, w) = (0, 0, 0) then none
  -- shapes whose lookups have no offset leave it out, whatever it is
  else match dimension.offsetLanes with
    | 0 => none
    | 1 => some (.integer u)
    | 2 => some (.construct ⟨.int, 2⟩ [.integer u, .integer v])
    | _ => some (.construct ⟨.int, 3⟩ [.integer u, .integer v, .integer w])

/-- The texture that a resource operand names, and its sampler. -/
def lookup? (ctx : Context) (resource : Operand) : Option (Texture × Expr) := do
  let slot := (← resource.register?).toUInt32.toNat
  let texture ← ctx.textures.find? (·.covers slot)
  return (texture, texture.samplerAt slot)

/-- The computations of finding a texture and its sampler. -/
def lookupSteps (ctx : Context) (resource : Operand) : List WordStep :=
  match resource.register? with
  | none => []
  | some register =>
    let slot := register.toUInt32.toNat
    Texture.searchSteps ctx.textures slot ++
      (ctx.textures.find? (·.covers slot)).toList.flatMap (·.samplerSteps slot)

/-- The value that a lookup delivers, its components picked as the resource operand says. -/
def picked (call : Expr) (resource : Operand) (mask : LaneMask) : Expr :=
  call.select (resource.selected mask)

def sampleCall (ctx : Context) (head : OperationHead) (address : Operand) (sampling : Sampling)
    (texture : Texture) (sampler : Expr) : Traced Expr := do
  let coordinates ← address.source ctx (.first texture.dimension.coordinateLanes) .float
  let offset := texelOffset? head texture.dimension
  match sampling with
  -- the forms of the call differ in where the offset stands among the arguments
  | .plain =>
    return match offset with
      | none => .call .texture [sampler, coordinates]
      | some o => .call .textureOffset [sampler, coordinates, o]
  | .lod operand =>
    let lod ← operand.source ctx (.single .x) .float
    return match offset with
      | none => .call .textureLod [sampler, coordinates, lod]
      | some o => .call .textureLodOffset [sampler, coordinates, lod, o]
  | .bias operand =>
    let bias ← operand.source ctx (.single .x) .float
    return match offset with
      | none => .call .texture [sampler, coordinates, bias]
      | some o => .call .textureOffset [sampler, coordinates, o, bias]
  | .gradient x y =>
    let mask := LaneMask.first texture.dimension.gradientLanes
    let dx ← x.source ctx mask .float
    let dy ← y.source ctx mask .float
    return match offset with
      | none => .call .textureGrad [sampler, coordinates, dx, dy]
      | some o => .call .textureGradOffset [sampler, coordinates, dx, dy, o]

/-- A lookup of a single texel. The level stands in the last component of the address; textures with
several samples take the number of the sample instead. -/
def fetchCall (ctx : Context) (head : OperationHead) (address : Operand)
    (sample : Option Operand) (texture : Texture) (sampler : Expr) : Traced Expr := do
  let coordinates ← address.source ctx (.first texture.dimension.coordinateLanes) .int
  match texture.dimension with
  | .buffer | .bufferEx => return .call .texelFetch [sampler, coordinates]
  | .texture2DMS | .texture2DMSArray =>
    let number ← match sample with
      | some operand => operand.source ctx (.single .x) .int
      | none => pure (.natural 0)
    return .call .texelFetch [sampler, coordinates, number]
  | dimension =>
    let lod ← address.source ctx (.single .w) .int
    return match texelOffset? head dimension with
      | none => .call .texelFetch [sampler, coordinates, lod]
      | some o => .call .texelFetchOffset [sampler, coordinates, lod, o]

def reciprocalSize : Nat := 1

def wholeSize : Nat := 2

/-- A size and a number of levels as one value, with the number type the operation asks for. -/
def sizeValue (head : OperationHead) (texture : Texture) (size levels : Expr) :
    NumberType × Expr :=
  let ivec3 : ValueType := ⟨.int, 3⟩
  let vec3 : ValueType := ⟨.float, 3⟩
  let size := match texture.dimension.sizeLanes with
    | 1 => Expr.construct ivec3 [size, .natural 0, .natural 0]
    | 2 => Expr.construct ivec3 [size, .natural 0]
    | _ => size
  if head.sizeQueryType = reciprocalSize then
    (.float, .construct .vec4 [.binary .divide .one (.construct vec3 [size]),
      .construct ⟨.float, 1⟩ [levels]])
  else if head.sizeQueryType = wholeSize then
    (.uint, .construct ⟨.uint, 4⟩ [.construct ⟨.uint, 3⟩ [size], .construct ⟨.uint, 1⟩ [levels]])
  else
    (.float, .construct .vec4 [.construct vec3 [size], .construct ⟨.float, 1⟩ [levels]])

/-- The size of a texture and the number of its levels, with the number type they come in. -/
def sizeQuery (ctx : Context) (head : OperationHead) (level : Operand) (texture : Texture)
    (sampler : Expr) : Traced (NumberType × Expr) :=
  match texture.dimension with
  | .buffer | .bufferEx | .texture2DMS | .texture2DMSArray =>
    return sizeValue head texture (.call .textureSize [sampler]) (.natural 1)
  | _ => do
    let lod ← level.source ctx (.single .x) .uint
    return sizeValue head texture (.call .textureSize [sampler, .construct ⟨.int, 1⟩ [lod]])
      (.call .textureQueryLevels [sampler])

end Glsl
end ShaderBytecode
