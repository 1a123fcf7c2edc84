import ShaderBytecode.Container.Basic
import ShaderBytecode.Glsl.Source

/-!
# Input and output registers

Signatures give input and output registers a number type; a register that no signature lists holds
floats. The value of some inputs is provided by the language: these registers are plain globals, and
`main` begins with assignments to them. The other way round, the position of a vertex is a plain
global that is copied to the provided variable before `main` returns.
-/

namespace ShaderBytecode

def ComponentType.numberType : ComponentType → NumberType
  | sint32 => .int
  | uint32 => .uint
  | _ => .float

namespace Glsl

def registerType (t : NumberType) : ValueType := ⟨t, 4⟩

/-- The number type that a signature gives to a register. Where elements of several streams share a
register, the last of them counts. -/
def signatureType (s : Option Signature) (register : UInt32) : NumberType :=
  -- the last of them, as a table that is filled in their order has it
  match (s.toList.flatMap Signature.registers).reverse.find? (·.register == register) with
  | some e => e.componentType.numberType
  | none => .float

/-! ### Provided inputs -/

structure ProvidedInput where
  value : Expr
  type : NumberType
  lanes : Nat

/-- The provided value of a system value in some stage, if there is one. -/
def providedInput? (stage : Option Stage) (v : SystemValue) : Option ProvidedInput :=
  let provided (v : ProvidedVariable) : Expr := .name (.provided v)
  match stage, v with
  | some .pixel, .position => some ⟨provided .fragCoord, .float, 4⟩
  | some .pixel, .isFrontFace =>
    some ⟨.group (.choose (provided .frontFacing) .trueBits .falseBits), .uint, 1⟩
  | some .pixel, .sampleIndex => some ⟨provided .sampleId, .int, 1⟩
  | some .pixel, .primitiveId | some .geometry, .primitiveId =>
    some ⟨provided .primitiveId, .int, 1⟩
  | some .vertex, .vertexId => some ⟨provided .vertexId, .int, 1⟩
  | some .vertex, .instanceId => some ⟨provided .instanceId, .int, 1⟩
  | _, _ => none

def firstLane (mask : UInt8) : Lane :=
  if mask.toNat.testBit 0 then .x
  else if mask.toNat.testBit 1 then .y
  else if mask.toNat.testBit 2 then .z
  else .w

def providedAssignment? (stage : Option Stage) (type : UInt32 → NumberType)
    (e : SignatureElement) : Option Assignment :=
  (providedInput? stage e.systemValue).map fun p =>
    let register := Expr.name (.register .input e.register.toNat)
    -- a value of one component goes to the first lane that the element has
    if p.lanes = 4 then ⟨register, p.value.convert p.type (type e.register) 4⟩
    else ⟨register.select [firstLane e.mask], p.value.convert p.type (type e.register) 1⟩

/-- The assignments at the beginning of `main`. -/
def prologue (stage : Option Stage) (type : UInt32 → NumberType) (inputs : Option Signature) :
    List Assignment :=
  (inputs.toList.flatMap Signature.registers).filterMap (providedAssignment? stage type)

/-! ### Declared registers -/

/-- The first element of each register that has one, whatever its stream. -/
def distinctRegisters (seen : List UInt32) : List SignatureElement → List SignatureElement
  | [] => []
  | e :: rest =>
    if e.register = SignatureElement.noRegister ∨ e.register ∈ seen then
      distinctRegisters seen rest
    else e :: distinctRegisters (e.register :: seen) rest

def declaringElements (s : Option Signature) : List SignatureElement :=
  distinctRegisters [] (s.toList.flatMap Signature.registers)

/-- The output of an element is the position of a vertex. -/
def isPosition (stage : Option Stage) (e : SignatureElement) : Bool :=
  stage != some .pixel && e.systemValue == .position

/-- The copies that are made before `main` returns. -/
def epilogue (stage : Option Stage) (outputs : Option Signature) : List Assignment :=
  ((declaringElements outputs).filter (isPosition stage)).map fun e =>
    ⟨.name (.provided .position), .name (.register .output e.register.toNat)⟩

/-- The qualifier of an input: pixel programs say how it is interpolated. -/
def inputQualifier (stage : Option Stage) (program : Option Program) (e : SignatureElement) :
    String :=
  if stage ≠ some .pixel then ""
  else if e.componentType.isInteger then Interpolation.constant.qualifier
  else
    let declared := (program.toList.flatMap Program.declarations).findSome? fun d =>
      match d with
      | .input _ operand (some interpolation) _ =>
        if operand.register? = some e.register.toUInt64 then some interpolation else none
      | _ => none
    match declared with
    | some interpolation => interpolation.qualifier
    | none => ""

/-- The qualifier of an output: whole numbers are not interpolated on their way to the pixels. -/
def outputQualifier (stage : Option Stage) (e : SignatureElement) : String :=
  if stage ≠ some .pixel ∧ e.componentType.isInteger then Interpolation.constant.qualifier
  else ""

/-- The declarations of the registers of a file: those of a signature first, then those that the
program uses besides, in ascending order. -/
def registerDeclarations (file : RegisterFile) (direction : String)
    (elements : List SignatureElement) (linkage : SignatureElement → Linkage)
    (used : List Nat) : List RegisterDeclaration :=
  let listed := elements.map fun e =>
    (⟨linkage e, registerType e.componentType.numberType, file, e.register.toNat,
      some e.semantic⟩ : RegisterDeclaration)
  let unlisted := used.filter fun n => !elements.any (·.register.toNat == n)
  listed ++ unlisted.map fun n => ⟨.location "" direction, .vec4, file, n, none⟩

def inputDeclarations (stage : Option Stage) (program : Option Program)
    (inputs : Option Signature) (used : List Nat) : List RegisterDeclaration :=
  registerDeclarations .input "in" (declaringElements inputs)
    (fun e =>
      if (providedInput? stage e.systemValue).isSome then .provided
      else .location (inputQualifier stage program e) "in")
    used

def outputDeclarations (stage : Option Stage) (outputs : Option Signature) (used : List Nat) :
    List RegisterDeclaration :=
  registerDeclarations .output "out" (declaringElements outputs)
    (fun e =>
      if isPosition stage e then .provided else .location (outputQualifier stage e) "out")
    used

end Glsl
end ShaderBytecode
