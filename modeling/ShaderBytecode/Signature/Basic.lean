import ShaderBytecode.Precision
import ShaderBytecode.Error

/-!
# Signatures

A signature lists the values that pass in or out of a stage. Each element has a semantic name and
lives in some components of a register; several elements may share one register.

`Signature.registers` picks one element for each register of each stream, the first declared.
-/

namespace ShaderBytecode

/-- A meaning of a value that the pipeline itself knows. -/
inductive SystemValue where
  | undefined
  | position
  | clipDistance
  | cullDistance
  | renderTargetArrayIndex
  | viewportArrayIndex
  | vertexId
  | primitiveId
  | instanceId
  | isFrontFace
  | sampleIndex
  | target
  | depth
  | coverage
  | depthGreaterEqual
  | depthLessEqual
  /-- Tessellation factors and later additions. -/
  | other (code : UInt32)
deriving DecidableEq, Repr

namespace SystemValue

/-- The system values that have a name. -/
def named : List SystemValue :=
  [undefined, position, clipDistance, cullDistance, renderTargetArrayIndex, viewportArrayIndex,
    vertexId, primitiveId, instanceId, isFrontFace, sampleIndex, target, depth, coverage,
    depthGreaterEqual, depthLessEqual]

def code : SystemValue → UInt32
  | undefined => 0
  | position => 1
  | clipDistance => 2
  | cullDistance => 3
  | renderTargetArrayIndex => 4
  | viewportArrayIndex => 5
  | vertexId => 6
  | primitiveId => 7
  | instanceId => 8
  | isFrontFace => 9
  | sampleIndex => 10
  | target => 64
  | depth => 65
  | coverage => 66
  | depthGreaterEqual => 67
  | depthLessEqual => 68
  | other code => code

def ofCode (c : UInt32) : SystemValue := (named.find? (·.code == c)).getD (other c)

/-- No code is lost, whether it has a name or not. -/
@[simp] theorem code_ofCode (c : UInt32) : (ofCode c).code = c := by
  unfold ofCode
  cases h : named.find? (·.code == c) with
  | none => rfl
  | some v => simpa using List.find?_some h

def name : SystemValue → String
  | undefined => "Undefined"
  | position => "Position"
  | clipDistance => "ClipDistance"
  | cullDistance => "CullDistance"
  | renderTargetArrayIndex => "RenderTargetArrayIndex"
  | viewportArrayIndex => "ViewportArrayIndex"
  | vertexId => "VertexId"
  | primitiveId => "PrimitiveId"
  | instanceId => "InstanceId"
  | isFrontFace => "IsFrontFace"
  | sampleIndex => "SampleIndex"
  | target => "Target"
  | depth => "Depth"
  | coverage => "Coverage"
  | depthGreaterEqual => "DepthGreaterEqual"
  | depthLessEqual => "DepthLessEqual"
  | other _ => "Other"

def text : SystemValue → String
  | other code => s!"Other({code.toNat})"
  | v => v.name

end SystemValue

inductive ComponentType where
  | unknown
  | uint32
  | sint32
  | float32
  | other (code : UInt32)
deriving DecidableEq, Repr

namespace ComponentType

/-- The component types that have a name. -/
def named : List ComponentType := [unknown, uint32, sint32, float32]

def code : ComponentType → UInt32
  | unknown => 0
  | uint32 => 1
  | sint32 => 2
  | float32 => 3
  | other code => code

def ofCode (c : UInt32) : ComponentType := (named.find? (·.code == c)).getD (other c)

/-- No code is lost, whether it has a name or not. -/
@[simp] theorem code_ofCode (c : UInt32) : (ofCode c).code = c := by
  unfold ofCode
  cases h : named.find? (·.code == c) with
  | none => rfl
  | some t => simpa using List.find?_some h

def name : ComponentType → String
  | unknown => "Unknown"
  | uint32 => "UInt32"
  | sint32 => "SInt32"
  | float32 => "Float32"
  | other _ => "Other"

def text : ComponentType → String
  | other code => s!"Other({code.toNat})"
  | t => t.name

def isInteger : ComponentType → Bool
  | uint32 | sint32 => true
  | _ => false

end ComponentType

/-- One value that passes in or out of a stage. -/
structure SignatureElement where
  /-- The semantic name. -/
  name : String
  semanticIndex : UInt32
  systemValue : SystemValue
  componentType : ComponentType
  register : UInt32
  /-- The components the element takes in its register, `x` in the lowest bit. -/
  mask : UInt8
  /-- The components that are really read, or for an output never written. -/
  accessMask : UInt8
  stream : UInt32
  minPrecision : MinPrecision
deriving DecidableEq, Repr

/-- The semantic name, with its index unless that is zero. -/
def SignatureElement.semantic (e : SignatureElement) : String :=
  if e.semanticIndex = 0 then e.name else s!"{e.name}{e.semanticIndex.toNat}"

/-- The register number that marks an element without a register. -/
def SignatureElement.noRegister : UInt32 := 0xFFFFFFFF

structure Signature where
  elements : List SignatureElement
deriving DecidableEq, Repr

namespace Signature

/-- The elements whose register and stream differ from those of every element in `seen`, and of
which each stands for its register. -/
def firstPerRegister (seen : List SignatureElement) : List SignatureElement →
    List SignatureElement
  | [] => []
  | e :: rest =>
    if seen.any fun s => s.register == e.register && s.stream == e.stream then
      firstPerRegister seen rest
    else e :: firstPerRegister (e :: seen) rest

/-- One element for each register of each stream, the first declared. -/
def registers (s : Signature) : List SignatureElement := firstPerRegister [] s.elements

end Signature
end ShaderBytecode
