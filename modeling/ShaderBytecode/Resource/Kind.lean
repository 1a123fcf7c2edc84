import ShaderBytecode.Error

/-!
# Kinds of resources and variables

The codes that resource definitions use for the kind of a buffer, of a variable and of a bound
resource. Most of them keep a code that they do not know; only the class of a variable must be one
of the eight that exist, since it decides how the variable is laid out.

A code is looked up in the list of the values that have a name, so a value and its code determine
each other.
-/

namespace ShaderBytecode

/-! ### Constant buffers -/

/-- The flavour of a constant buffer. -/
inductive BufferKind where
  | constantBuffer
  | textureBuffer
  | interfacePointers
  | resourceBindInfo
  | other (code : UInt32)
deriving DecidableEq, Repr

namespace BufferKind

/-- The kinds that have a name. -/
def named : List BufferKind :=
  [constantBuffer, textureBuffer, interfacePointers, resourceBindInfo]

def code : BufferKind → UInt32
  | constantBuffer => 0
  | textureBuffer => 1
  | interfacePointers => 2
  | resourceBindInfo => 3
  | other code => code

def ofCode (c : UInt32) : BufferKind := (named.find? (·.code == c)).getD (other c)

def name : BufferKind → String
  | constantBuffer => "ConstantBuffer"
  | textureBuffer => "TextureBuffer"
  | interfacePointers => "InterfacePointers"
  | resourceBindInfo => "ResourceBindInfo"
  | other _ => "Other"

/-- The name of a kind, with the code where there is no name. -/
def text : BufferKind → String
  | other code => s!"Other({code.toNat})"
  | k => k.name

end BufferKind

/-! ### Variables -/

inductive VariableClass where
  | scalar
  | vector
  | matrixRows
  | matrixColumns
  | object
  | struct
  | interfaceClass
  | interfacePointer
deriving DecidableEq, Repr

namespace VariableClass

def all : List VariableClass :=
  [scalar, vector, matrixRows, matrixColumns, object, struct, interfaceClass, interfacePointer]

def code : VariableClass → UInt16
  | scalar => 0
  | vector => 1
  | matrixRows => 2
  | matrixColumns => 3
  | object => 4
  | struct => 5
  | interfaceClass => 6
  | interfacePointer => 7

def ofCode (c : UInt16) : Except DecodeError VariableClass :=
  match all.find? (·.code == c) with
  | some k => .ok k
  | none => .error (.unsupported .variableClass c.toNat)

def name : VariableClass → String
  | scalar => "Scalar"
  | vector => "Vector"
  | matrixRows => "MatrixRows"
  | matrixColumns => "MatrixColumns"
  | object => "Object"
  | struct => "Struct"
  | interfaceClass => "InterfaceClass"
  | interfacePointer => "InterfacePointer"

end VariableClass

inductive ComponentBase where
  | void
  | bool
  | int
  | float
  | uint
  | uint8
  | double
  | min8Float
  | min10Float
  | min16Float
  | min12Int
  | min16Int
  | min16UInt
  /-- Textures, samplers and the rest. -/
  | other (code : UInt16)
deriving DecidableEq, Repr

namespace ComponentBase

/-- The bases that have a name. -/
def named : List ComponentBase :=
  [void, bool, int, float, uint, uint8, double, min8Float, min10Float, min16Float, min12Int,
    min16Int, min16UInt]

def code : ComponentBase → UInt16
  | void => 0
  | bool => 1
  | int => 2
  | float => 3
  | uint => 19
  | uint8 => 20
  | double => 39
  | min8Float => 57
  | min10Float => 58
  | min16Float => 59
  | min12Int => 60
  | min16Int => 61
  | min16UInt => 62
  | other code => code

def ofCode (c : UInt16) : ComponentBase := (named.find? (·.code == c)).getD (other c)

def name : ComponentBase → String
  | void => "Void"
  | bool => "Bool"
  | int => "Int"
  | float => "Float"
  | uint => "UInt"
  | uint8 => "UInt8"
  | double => "Double"
  | min8Float => "Min8Float"
  | min10Float => "Min10Float"
  | min16Float => "Min16Float"
  | min12Int => "Min12Int"
  | min16Int => "Min16Int"
  | min16UInt => "Min16UInt"
  | other _ => "Other"

end ComponentBase

/-! ### Bound resources -/

inductive BindingKind where
  | constantBuffer
  | textureBuffer
  | texture
  | sampler
  | uavRwTyped
  | structured
  | uavRwStructured
  | byteAddress
  | uavRwByteAddress
  | uavAppendStructured
  | uavConsumeStructured
  | uavRwStructuredWithCounter
  | other (code : UInt32)
deriving DecidableEq, Repr

namespace BindingKind

/-- The kinds that have a name. -/
def named : List BindingKind :=
  [constantBuffer, textureBuffer, texture, sampler, uavRwTyped, structured, uavRwStructured,
    byteAddress, uavRwByteAddress, uavAppendStructured, uavConsumeStructured,
    uavRwStructuredWithCounter]

def code : BindingKind → UInt32
  | constantBuffer => 0
  | textureBuffer => 1
  | texture => 2
  | sampler => 3
  | uavRwTyped => 4
  | structured => 5
  | uavRwStructured => 6
  | byteAddress => 7
  | uavRwByteAddress => 8
  | uavAppendStructured => 9
  | uavConsumeStructured => 10
  | uavRwStructuredWithCounter => 11
  | other code => code

def ofCode (c : UInt32) : BindingKind := (named.find? (·.code == c)).getD (other c)

def name : BindingKind → String
  | constantBuffer => "ConstantBuffer"
  | textureBuffer => "TextureBuffer"
  | texture => "Texture"
  | sampler => "Sampler"
  | uavRwTyped => "UavRwTyped"
  | structured => "Structured"
  | uavRwStructured => "UavRwStructured"
  | byteAddress => "ByteAddress"
  | uavRwByteAddress => "UavRwByteAddress"
  | uavAppendStructured => "UavAppendStructured"
  | uavConsumeStructured => "UavConsumeStructured"
  | uavRwStructuredWithCounter => "UavRwStructuredWithCounter"
  | other _ => "Other"

/-- The name of a kind, with the code where there is no name. -/
def text : BindingKind → String
  | other code => s!"Other({code.toNat})"
  | k => k.name

end BindingKind

/-- What an element of a resource reads as. -/
inductive ReturnType where
  | unused
  | unorm
  | snorm
  | sint
  | uint
  | float
  | mixed
  | double
  | continued
deriving DecidableEq, Repr

namespace ReturnType

def all : List ReturnType :=
  [unused, unorm, snorm, sint, uint, float, mixed, double, continued]

def code : ReturnType → UInt32
  | unused => 0
  | unorm => 1
  | snorm => 2
  | sint => 3
  | uint => 4
  | float => 5
  | mixed => 6
  | double => 7
  | continued => 8

/-- The return type with a code; a code without one counts as unused. -/
def ofCode (c : UInt32) : ReturnType := (all.find? (·.code == c)).getD unused

def name : ReturnType → String
  | unused => "Unused"
  | unorm => "Unorm"
  | snorm => "Snorm"
  | sint => "Sint"
  | uint => "Uint"
  | float => "Float"
  | mixed => "Mixed"
  | double => "Double"
  | continued => "Continued"

/-- The letter in front of a GLSL sampler type that reads as this, if it has one. -/
def samplerLetter : ReturnType → String
  | sint => "i"
  | uint => "u"
  | _ => ""

end ReturnType

/-- The shape of a resource view. Resource definitions and programs number the shapes in two ways
of their own. -/
inductive Dimension where
  | unknown
  | buffer
  | texture1D
  | texture1DArray
  | texture2D
  | texture2DArray
  | texture2DMS
  | texture2DMSArray
  | texture3D
  | textureCube
  | textureCubeArray
  | bufferEx
  | rawBuffer
  | structuredBuffer
deriving DecidableEq, Repr

namespace Dimension

def ofViewCode (code : UInt32) : Dimension :=
  [unknown, buffer, texture1D, texture1DArray, texture2D, texture2DArray, texture2DMS,
    texture2DMSArray, texture3D, textureCube, textureCubeArray, bufferEx][code.toNat]?.getD unknown

def ofProgramCode (code : UInt32) : Dimension :=
  [unknown, buffer, texture1D, texture2D, texture2DMS, texture3D, textureCube, texture1DArray,
    texture2DArray, texture2DMSArray, textureCubeArray, rawBuffer,
    structuredBuffer][code.toNat]?.getD unknown

def name : Dimension → String
  | unknown => "Unknown"
  | buffer => "Buffer"
  | texture1D => "Texture1D"
  | texture1DArray => "Texture1DArray"
  | texture2D => "Texture2D"
  | texture2DArray => "Texture2DArray"
  | texture2DMS => "Texture2DMS"
  | texture2DMSArray => "Texture2DMSArray"
  | texture3D => "Texture3D"
  | textureCube => "TextureCube"
  | textureCubeArray => "TextureCubeArray"
  | bufferEx => "BufferEx"
  | rawBuffer => "RawBuffer"
  | structuredBuffer => "StructuredBuffer"

/-- The number of address components of a lookup, the array layer included. -/
def coordinateLanes : Dimension → Nat
  | texture1DArray | texture2D | texture2DMS => 2
  | texture2DArray | texture2DMSArray | texture3D | textureCube => 3
  | textureCubeArray => 4
  | _ => 1

/-- The number of components of a size query. -/
def sizeLanes : Dimension → Nat
  | texture1DArray | texture2D | texture2DMS | textureCube => 2
  | texture2DArray | texture2DMSArray | texture3D | textureCubeArray => 3
  | _ => 1

/-- The number of components of a texel offset; zero where a lookup takes none. -/
def offsetLanes : Dimension → Nat
  | texture1D | texture1DArray => 1
  | texture2D | texture2DArray | texture2DMS | texture2DMSArray => 2
  | texture3D => 3
  | _ => 0

/-- The number of components of a gradient. -/
def gradientLanes : Dimension → Nat
  | texture2D | texture2DArray => 2
  | texture3D | textureCube | textureCubeArray => 3
  | _ => 1

/-- The end of the GLSL sampler type for a shape, for the shapes that are sampled. -/
def samplerSuffix? : Dimension → Option String
  | buffer | bufferEx => some "Buffer"
  | texture1D => some "1D"
  | texture1DArray => some "1DArray"
  | texture2D => some "2D"
  | texture2DArray => some "2DArray"
  | texture2DMS => some "2DMS"
  | texture2DMSArray => some "2DMSArray"
  | texture3D => some "3D"
  | textureCube => some "Cube"
  | textureCubeArray => some "CubeArray"
  | unknown | rawBuffer | structuredBuffer => none

end Dimension
end ShaderBytecode
