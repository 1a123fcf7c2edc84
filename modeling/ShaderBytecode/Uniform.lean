import ShaderBytecode.Bytes.Row
import ShaderBytecode.Resource.Definitions

/-!
# Uniform values and blocks

A uniform block is the contents of a constant buffer in memory. It begins with the default values of
the variables, and `UniformBlock.set` writes a value into a variable by name.

A value is made of elements, the items of an array or the rows of a matrix, and every element begins
a row of its own. The last element is not padded to a full row: `UniformValue.packedLength` ends
where the last word ends, while the std140 size of an array counts full rows.
-/

namespace ShaderBytecode

/-- A value for a variable. Floating-point numbers are given by their bits. -/
inductive UniformValue where
  | float (x : UInt32)
  | vec2 (x y : UInt32)
  | vec3 (x y z : UInt32)
  | vec4 (row : Row)
  | int (x : UInt32)
  | ivec4 (row : Row)
  | uint (x : UInt32)
  | uvec4 (row : Row)
  | mat4 (a b c d : Row)
  | floatArray (values : List UInt32)
  | vec4Array (rows : List Row)
  | intArray (values : List UInt32)
deriving DecidableEq, Repr

/-- The size and base alignment of a value in bytes. -/
structure BlockLayout where
  size : Nat
  align : Nat
deriving DecidableEq, Repr

namespace UniformValue

/-- The bytes from one element to the next. -/
def stride : Nat := ConstantBuffer.rowBytes

def std140 : UniformValue → BlockLayout
  | float _ | int _ | uint _ => ⟨4, 4⟩
  | vec2 _ _ => ⟨8, 8⟩
  | vec3 _ _ _ => ⟨12, 16⟩
  | vec4 _ | ivec4 _ | uvec4 _ => ⟨16, 16⟩
  | mat4 _ _ _ _ => ⟨64, 16⟩
  | floatArray values => ⟨stride * values.length, stride⟩
  | vec4Array rows => ⟨stride * rows.length, stride⟩
  | intArray values => ⟨stride * values.length, stride⟩

def elements : UniformValue → List (List UInt32)
  | float x => [[x]]
  | vec2 x y => [[x, y]]
  | vec3 x y z => [[x, y, z]]
  | vec4 row => [row.toList]
  | int x => [[x]]
  | ivec4 row => [row.toList]
  | uint x => [[x]]
  | uvec4 row => [row.toList]
  | mat4 a b c d => [a.toList, b.toList, c.toList, d.toList]
  | floatArray values => values.map fun v => [v]
  | vec4Array rows => rows.map Row.toList
  | intArray values => values.map fun v => [v]

/-- The bytes a value covers when written, up to the end of its last word. -/
def packedLength (v : UniformValue) : Nat :=
  match v.elements.getLast? with
  | none => 0
  | some last => stride * (v.elements.length - 1) + 4 * last.length

end UniformValue

inductive UniformError where
  | unknownVariable (name : String)
  /-- The value is larger than the variable. -/
  | tooLarge (name : String) (needed available : Nat)
  /-- The variable reaches past the end of the buffer. -/
  | outside (cause : BufferOffsetError)
deriving DecidableEq, Repr

def UniformError.message : UniformError → String
  | unknownVariable name => s!"constant buffer has no variable named '{name}'"
  | tooLarge name needed available =>
    s!"value for '{name}' needs {needed} bytes but the variable holds {available}"
  | outside cause => cause.message

structure UniformSlot where
  name : String
  offset : Nat
  size : Nat
deriving DecidableEq, Repr

structure UniformBlock where
  name : String
  data : Bytes
  /-- The variables in their order. -/
  slots : List UniformSlot
deriving Repr

namespace UniformBlock

/-- The contents with the default value of a variable. What does not fit is left out. -/
def fillDefault (data : Bytes) (v : Variable) : Bytes :=
  match v.default with
  | some value => data.overwrite v.offset.toNat value
  | none => data

def ofBuffer (b : ConstantBuffer) : UniformBlock where
  name := b.name
  -- later variables write over earlier ones, also where both have a value
  data := b.vars.foldl fillDefault (Array.replicate b.size.toNat 0)
  slots := b.vars.map fun v => ⟨v.name, v.offset.toNat, v.size.toNat⟩

/-- Where the variable of a name lies; of several the last one counts. -/
def slot? (block : UniformBlock) (name : String) : Option UniformSlot :=
  block.slots.reverse.find? (·.name == name)

def wordBytes (ws : List UInt32) : Bytes := (ws.map Bytes.ofWord).foldl (· ++ ·) #[]

/-- `data` with elements written from `offset` on, each a stride behind the one before. -/
def writeElements (data : Bytes) (offset : Nat) : List (List UInt32) → Bytes
  | [] => data
  | ws :: rest =>
    writeElements (data.overwrite offset (wordBytes ws)) (offset + UniformValue.stride) rest

def set (block : UniformBlock) (name : String) (v : UniformValue) :
    Except UniformError UniformBlock :=
  match block.slot? name with
  | none => .error (.unknownVariable name)
  | some slot =>
    -- the whole value is checked, so none of it is written if a part does not fit
    let needed := v.packedLength
    if slot.size < needed then .error (.tooLarge name needed slot.size)
    else if block.data.size < slot.offset + needed then
      -- Offsets of buffers are 32-bit numbers, also in a report.
      .error <| .outside
        ⟨block.name, (slot.offset + needed) % wordLimit, block.data.size % wordLimit⟩
    else .ok { block with data := writeElements block.data slot.offset v.elements }

end UniformBlock
end ShaderBytecode
