import ShaderBytecode.Glsl.BlockMember
import ShaderBytecode.Glsl.Texture
import ShaderBytecode.Glsl.Traced

/-!
# Operands as expressions

A source is lowered for the lanes of its destination and with the number type that its instruction
reads. Registers are variables of some number type, so a source is converted from the one to the
other.

The indices of an operand may name registers, which are sources in turn: `Operand.source` and
`Indices.parts` follow the tree of an operand together.
-/

namespace ShaderBytecode
namespace Glsl

structure Context where
  resources : Option ResourceDefinitions
  /-- The number type of an input register. -/
  inputType : UInt32 → NumberType
  /-- The number type of an output register. -/
  outputType : UInt32 → NumberType
  textures : List Texture

/-- The constant buffer that is bound at a slot. -/
def Context.bufferAt? (ctx : Context) (slot : UInt32) : Option ConstantBuffer :=
  ctx.resources.bind (·.bufferAt? slot.toNat)

def Context.bufferAtSteps (ctx : Context) (slot : UInt32) : List WordStep :=
  ctx.resources.toList.flatMap (·.bindingAtSteps .constantBuffer slot.toNat)

/-! ### Indices -/

/-- An index whose register, if it has one, has been lowered. -/
structure IndexPart where
  value : UInt64
  base : Option (Traced Expr)

def IndexPart.expr (i : IndexPart) : Traced Expr :=
  let number := Expr.natural i.value.toNat
  match i.base with
  | none => pure number
  | some base => do
    let e ← base
    return if i.value = 0 then e else .binary .add e number

/-- An index that may be missing, as an expression; without one it is zero. -/
def IndexPart.exprOrZero : Option IndexPart → Traced Expr
  | some i => i.expr
  | none => pure (.natural 0)

/-! ### Registers -/

structure Storage where
  expr : Expr
  type : NumberType

/-- The variable for a register; there is none for the file that stands for no destination. -/
def registerStorage (ctx : Context) (file : RegisterFile) (indices : List IndexPart) :
    Option (Traced Storage) :=
  let last := (indices.getLast?.map (·.value)).getD 0
  let plain : Expr := .name (.register file last.toNat)
  let provided (v : ProvidedVariable) (type : NumberType) : Option (Traced Storage) :=
    some (pure ⟨.name (.provided v), type⟩)
  match file with
  | .null => none
  | .input =>
    let type := ctx.inputType last.toUInt32
    match indices with
    -- the inputs of a geometry shader are arrays, with one element for each vertex
    | [vertex, _] => some do return ⟨.element plain (← vertex.expr), type⟩
    | _ => some (pure ⟨plain, type⟩)
  | .output => some (pure ⟨plain, ctx.outputType last.toUInt32⟩)
  | .indexableTemp =>
    let number := (indices.head?.map (·.value)).getD 0
    some do
      let position ← IndexPart.exprOrZero indices[1]?
      return ⟨.element (.name (.register file number.toNat)) position, .float⟩
  | .immediateConstantBuffer =>
    some do
      let position ← IndexPart.exprOrZero indices.head?
      return ⟨.element (.name .immediateBuffer) position, .float⟩
  | .outputDepth | .outputDepthGreaterEqual | .outputDepthLessEqual => provided .fragDepth .float
  | .outputCoverageMask =>
    some (pure ⟨.element (.name (.provided .sampleMask)) (.natural 0), .int⟩)
  | .inputCoverageMask =>
    some (pure ⟨.element (.name (.provided .sampleMaskIn)) (.natural 0), .int⟩)
  | .inputPrimitiveId => provided .primitiveId .int
  | .inputGsInstanceId | .outputControlPointId => provided .invocationId .int
  | .inputThreadId => provided .globalInvocationId .uint
  | .inputThreadGroupId => provided .workGroupId .uint
  | .inputThreadIdInGroup => provided .localInvocationId .uint
  | .inputThreadIdInGroupFlattened => provided .localInvocationIndex .uint
  | .inputDomainPoint => provided .tessCoord .float
  | .unorderedAccessView | .threadGroupSharedMemory => some (pure ⟨plain, .uint⟩)
  | _ => some (pure ⟨plain, .float⟩)

/-! ### Literals -/

def literalSource (literals : Option Literals) (mask : LaneMask) (type : NumberType) :
    Traced Expr :=
  match literals with
  | none => do
    Traced.notice .noLiterals
    return .zeroAs type mask.width
  | some literals =>
    match mask.orFirst.lanes.filterMap fun lane => Expr.literal? literals lane type with
    | [] => pure (.zeroAs type 1)
    | [e] => pure e
    | es => pure (.construct ⟨type, es.length⟩ es)

/-! ### Constant buffers -/

def componentBytes : Nat := 4

/-- The byte offset of a row, and that of the component for a lane within the row. A row whose byte
offset is no 32-bit number is nowhere. -/
def componentOffset? (components : Components) (row : UInt64) (lane : Lane) :
    Option (Nat × Nat) := do
  let component ← components.laneSource? lane.val
  let offset := ConstantBuffer.rowBytes * row.toUInt32.toNat
  if wordLimit ≤ offset then none else some (offset, componentBytes * component.val)

/-- Where the component of a row of a buffer is found for a lane. -/
def bufferAccess? (buffer : ConstantBuffer) (components : Components) (row : UInt64)
    (dynamic : Bool) (lane : Lane) : Option Access := do
  let (offset, within) ← componentOffset? components row lane
  Access.resolve buffer dynamic (offset + within)

/-- Where the components of a row of a buffer are found for some lanes, if all of them are. -/
def bufferAccesses (buffer : ConstantBuffer) (components : Components) (lanes : List Lane)
    (row : UInt64) (dynamic : Bool) : Option (List Access) :=
  lanes.mapM (bufferAccess? buffer components row dynamic)

def bufferAccessSteps (buffer : ConstantBuffer) (components : Components) (row : UInt64)
    (lane : Lane) : List WordStep :=
  match componentOffset? components row lane with
  | none => []
  | some (offset, within) =>
    .sum offset within :: Access.resolveSteps buffer (offset + within)

/-- The computations of finding the components for some lanes, up to the first that is not found. -/
def bufferAccessesSteps (buffer : ConstantBuffer) (components : Components) (lanes : List Lane)
    (row : UInt64) (dynamic : Bool) : List WordStep :=
  (lookedAt (fun lane => (bufferAccess? buffer components row dynamic lane).isNone) lanes).flatMap
    (bufferAccessSteps buffer components row)

/-- A row of a constant buffer, whose run-time part has been lowered: by the members of its block
where they are found, otherwise from the plain rows of the buffer. -/
def rowSource (ctx : Context) (slot : UInt32) (components : Components) (row : IndexPart)
    (base : Option Expr) (mask : LaneMask) (type : NumberType) : Traced Expr := do
  let buffer := ctx.bufferAt? slot
  Traced.compute (ctx.bufferAtSteps slot)
  Traced.compute (buffer.toList.flatMap fun b =>
    bufferAccessesSteps b components mask.lanes row.value base.isSome)
  match buffer.bind fun b => bufferAccesses b components mask.lanes row.value base.isSome with
  | some accesses => return Access.combine accesses base type
  | none =>
    -- no member is there, or one that has no such component
    let position ← row.expr
    if buffer.isSome then Traced.notice (.unresolvedRow slot position.text)
    -- the rows of the slot need a block of their own
    Traced.rawSlot slot
    let e := (Expr.element (.name (.bufferRows slot)) position).select (components.selected mask)
    return e.convert .float type mask.lanes.length

def bufferSource (ctx : Context) (components : Components) (indices : List IndexPart)
    (mask : LaneMask) (type : NumberType) : Traced Expr := do
  let slot := ((indices.head?.map IndexPart.value).getD 0).toUInt32
  match indices[1]? with
  | none =>
    Traced.notice (.noRow slot)
    Traced.rawSlot slot
    return (Expr.element (.name (.bufferRows slot)) (.natural 0)).select (components.selected mask)
  | some row =>
    let base ← match row.base with
      | none => pure none
      | some base => some <$> base
    rowSource ctx slot components row base mask.orFirst type

/-! ### Sources -/

def modify (m : OperandModifier) (e : Expr) : Expr :=
  match m with
  | .none => e
  | .neg => .unary .negate (.group e)
  | .abs => .call .abs [e]
  | .absNeg => .unary .negate (.call .abs [e])

/-- The lanes of a register that feed the lanes of a mask. An operand without a selection gives its
value to all of them. -/
def registerLanes (components : Components) (mask : LaneMask) (s : Storage) : Expr :=
  match components with
  | .four _ => s.expr.select (components.selected mask)
  | _ => if 1 < mask.width then .construct ⟨s.type, mask.width⟩ [s.expr] else s.expr

/-- The value of a source before its modifier; a source that stands for no register has none. -/
def unmodifiedSource (ctx : Context) (head : OperandHead) (indices : List IndexPart)
    (literals : Option Literals) (mask : LaneMask) (type : NumberType) : Option (Traced Expr) :=
  match head.file with
  | .immediate32 | .immediate64 => some (literalSource literals mask type)
  | .constantBuffer => some (bufferSource ctx head.components indices mask type)
  | file =>
    (registerStorage ctx file indices).map fun storage => do
      let s ← storage
      return (registerLanes head.components mask s).convert s.type type mask.width

/-- A source whose indices have been lowered. One without a value is zero, whatever its modifier. -/
def sourceOf (ctx : Context) (head : OperandHead) (indices : List IndexPart)
    (literals : Option Literals) (mask : LaneMask) (type : NumberType) : Traced Expr :=
  match unmodifiedSource ctx head indices literals mask type with
  | none => pure (.zeroAs type mask.width)
  | some value => do
    let e ← value
    return modify head.modifier e

end Glsl

open Glsl

mutual

/-- A source for the lanes of a mask, read as a number type. -/
def Operand.source (ctx : Context) :
    Operand → LaneMask → NumberType → Traced Expr
  | .mk head indices literals, mask, type =>
    sourceOf ctx head (indices.parts ctx) literals mask type

/-- The indices of an operand, lowered. A register within an index is read as a whole number from
its first lane. -/
def Indices.parts (ctx : Context) : Indices → List IndexPart
  | .nil => []
  | .fixed _ value rest => ⟨value, none⟩ :: rest.parts ctx
  | .relative _ value base rest =>
    ⟨value, some (base.source ctx (.single .x) .int)⟩ :: rest.parts ctx

end

namespace Glsl

/-! ### Destinations -/

structure Destination where
  target : Expr
  /-- The number type of the register. -/
  type : NumberType
  mask : LaneMask

namespace Destination

/-- The number of lanes an expression for a destination has. -/
def width (d : Destination) : Nat := d.mask.width

/-- A value of a number type, limited to the range from zero to one if it is to saturate. -/
def saturated (saturate : Bool) (type : NumberType) (value : Expr) : Expr :=
  if saturate ∧ type = .float then .call .clamp [value, .zero, .one] else value

def assign (d : Destination) (value : Expr) (type : NumberType) (saturate : Bool) : Assignment :=
  ⟨d.target, (saturated saturate type value).convert type d.type d.width⟩

end Destination

/-- The destination that an operand names, unless it stands for none. -/
def destination (ctx : Context) : Operand → Traced (Option Destination)
  | .mk head indices _ =>
    match registerStorage ctx head.file (indices.parts ctx) with
    | none => pure none
    | some storage => do
      let s ← storage
      return some ⟨s.expr.select (head.components.selected .all), s.type,
        head.components.writeMask⟩

end Glsl
end ShaderBytecode
