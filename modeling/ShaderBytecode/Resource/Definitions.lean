import ShaderBytecode.Resource.Kind
import ShaderBytecode.Stage
import ShaderBytecode.WordStep

/-!
# Resource definitions

What a compiler records about the resources of a program: the constant buffers with their
variables, and which resource is bound at which slot.

A constant buffer is read by byte offset. `ConstantBuffer.resolve` finds the variable that an offset
belongs to: of the variables that start at or before it, the last one. Variables are kept in
ascending order of offset, so these are the ones at the front of the list.
-/

namespace ShaderBytecode

/-! ### Types -/

/-- What a type record says apart from its members. -/
structure TypeShape where
  variableClass : VariableClass
  base : ComponentBase
  rows : UInt16
  columns : UInt16
  /-- The length of an array, zero for anything else. -/
  elements : UInt16
  name : Option String
deriving DecidableEq, Repr

mutual

inductive VariableType where
  | mk (shape : TypeShape) (members : Members)

inductive Members where
  | nil
  | cons (name : String) (offset : UInt32) (type : VariableType) (rest : Members)

end

namespace Members

/-- The members in a list, each a name, an offset and a type. -/
def ofList : List (String × UInt32 × VariableType) → Members
  | [] => nil
  | (name, offset, type) :: rest => cons name offset type (ofList rest)

def toList : Members → List (String × UInt32 × VariableType)
  | nil => []
  | cons name offset type rest => (name, offset, type) :: rest.toList

@[simp] theorem toList_ofList (l : List (String × UInt32 × VariableType)) :
    (ofList l).toList = l := by
  induction l with
  | nil => rfl
  | cons m l ih => simp [ofList, toList, ih]

end Members

namespace VariableType

def shape : VariableType → TypeShape
  | mk shape _ => shape

def members : VariableType → Members
  | mk _ members => members

end VariableType

/-! ### Constant buffers -/

structure Variable where
  name : String
  /-- The byte offset from the start of the buffer. -/
  offset : UInt32
  size : UInt32
  flags : UInt32
  type : VariableType
  default : Option Bytes

/-- The compiler marked the variable as referenced. -/
def Variable.isUsed (v : Variable) : Bool := v.flags &&& 2 != 0

structure ConstantBuffer where
  name : String
  /-- In ascending order of offset. -/
  vars : List Variable
  size : UInt32
  flags : UInt32
  kind : BufferKind

/-- An offset that belongs to no variable of a buffer. -/
structure BufferOffsetError where
  buffer : String
  offset : Nat
  size : Nat
deriving DecidableEq, Repr

def BufferOffsetError.message (e : BufferOffsetError) : String :=
  s!"offset {e.offset} is outside constant buffer '{e.buffer}' of {e.size} bytes"

structure ResolvedOffset where
  found : Variable
  /-- The row of sixteen bytes within the variable: an array element or a matrix row. -/
  row : Nat
  /-- The 32-bit component within that row. -/
  component : Nat

namespace ConstantBuffer

def rowBytes : Nat := 16

/-- The variable that the byte at `offset` belongs to. -/
def resolve (buffer : ConstantBuffer) (offset : Nat) : Except BufferOffsetError ResolvedOffset :=
  let outside : BufferOffsetError := ⟨buffer.name, offset, buffer.size.toNat⟩
  if offset < buffer.size.toNat then
    match (buffer.vars.takeWhile (·.offset.toNat ≤ offset)).getLast? with
    | some v =>
      let relative := offset - v.offset.toNat
      .ok ⟨v, relative / rowBytes, relative % rowBytes / 4⟩
    | none => .error outside
  else .error outside

end ConstantBuffer

/-! ### Bindings -/

structure ResourceBinding where
  name : String
  kind : BindingKind
  returnType : ReturnType
  dimension : Dimension
  sampleCount : UInt32
  bindPoint : UInt32
  bindCount : UInt32
  flags : UInt32
deriving DecidableEq, Repr

namespace ResourceBinding

/-- The number of slots a binding takes, at least one. -/
def slotCount (b : ResourceBinding) : Nat := max b.bindCount.toNat 1

/-- A slot lies within the range of a binding. -/
def covers (b : ResourceBinding) (slot : Nat) : Bool :=
  b.bindPoint.toNat ≤ slot && slot < b.bindPoint.toNat + b.slotCount

def endStep (b : ResourceBinding) : WordStep := .sum b.bindPoint.toNat b.slotCount

end ResourceBinding

/-! ### The definitions of a program -/

structure AnnouncedSizes where
  headerBytes : UInt32
  bufferBytes : UInt32
  variableBytes : UInt32
  typeBytes : UInt32
  memberBytes : UInt32
  bindingBytes : UInt32
  interfaceSlots : UInt32
deriving DecidableEq, Repr

structure ResourceDefinitions where
  majorVersion : UInt8
  minorVersion : UInt8
  stage : Stage
  flags : UInt32
  /-- The name the compiler gives itself. -/
  creator : String
  announced : Option AnnouncedSizes
  buffers : List ConstantBuffer
  bindings : List ResourceBinding

namespace ResourceDefinitions

def buffer? (d : ResourceDefinitions) (name : String) : Option ConstantBuffer :=
  d.buffers.find? (·.name == name)

/-- The binding of a kind that covers a slot. -/
def bindingAt? (d : ResourceDefinitions) (kind : BindingKind) (slot : Nat) :
    Option ResourceBinding :=
  d.bindings.find? fun b => b.kind == kind && b.covers slot

def bindingAtSteps (d : ResourceDefinitions) (kind : BindingKind) (slot : Nat) : List WordStep :=
  ((lookedAt (fun b => b.kind == kind && b.covers slot) d.bindings).filter (·.kind == kind)).map
    ResourceBinding.endStep

def bufferAt? (d : ResourceDefinitions) (slot : Nat) : Option ConstantBuffer := do
  let binding ← d.bindingAt? .constantBuffer slot
  d.buffer? binding.name

end ResourceDefinitions
end ShaderBytecode
