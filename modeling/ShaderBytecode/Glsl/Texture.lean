import ShaderBytecode.Glsl.Shader
import ShaderBytecode.Program.Instruction
import ShaderBytecode.Resource.Definitions

/-!
# Textures

Each texture becomes a sampler. Textures come from resource definitions; a slot that the program
declares but no definition covers becomes a texture of its own, named by the slot.
-/

namespace ShaderBytecode
namespace Glsl

/-- A texture that is bound at a range of slots. -/
structure Texture where
  name : String
  bindPoint : Nat
  bindCount : Nat
  dimension : Dimension
  returnType : ReturnType
deriving DecidableEq, Repr

namespace Texture

/-- A slot lies within the range of a texture. -/
def covers (t : Texture) (slot : Nat) : Bool :=
  t.bindPoint ≤ slot && slot < t.bindPoint + t.bindCount

/-- The end of the range. -/
def endStep (t : Texture) : WordStep := .sum t.bindPoint t.bindCount

def searchSteps (textures : List Texture) (slot : Nat) : List WordStep :=
  (lookedAt (·.covers slot) textures).map endStep

/-- What an element of a texture reads as. -/
def numberType (t : Texture) : NumberType :=
  match t.returnType with
  | .sint => .int
  | .uint => .uint
  | _ => .float

def ofBinding? (b : ResourceBinding) : Option Texture :=
  if b.kind = .texture then
    some ⟨b.name, b.bindPoint.toNat, b.slotCount, b.dimension, b.returnType⟩
  else none

def ofDeclaration? : Declaration → Option Texture
  | .resource operand dimension _ returnTypes =>
    operand.register?.map fun r =>
      let slot := r.toUInt32.toNat
      ⟨s!"t{slot}", slot, 1, dimension, returnTypes.x⟩
  | _ => none

/-- `known` with those of some declared textures whose slots are not covered yet. -/
def addUncovered (known : List Texture) : List Texture → List Texture
  | [] => known
  | t :: ts =>
    if known.any (·.covers t.bindPoint) then addUncovered known ts
    else addUncovered (known ++ [t]) ts

def addUncoveredSteps (known : List Texture) : List Texture → List WordStep
  | [] => []
  | t :: ts =>
    searchSteps known t.bindPoint ++
      if known.any (·.covers t.bindPoint) then addUncoveredSteps known ts
      else addUncoveredSteps (known ++ [t]) ts

/-- All textures in ascending order of slot; textures at one slot keep their order. -/
def collect (resources : Option ResourceDefinitions) (program : Option Program) : List Texture :=
  let bound := (resources.toList.flatMap (·.bindings)).filterMap ofBinding?
  let declared := (program.toList.flatMap Program.declarations).filterMap ofDeclaration?
  (addUncovered bound declared).mergeSort fun a b => a.bindPoint ≤ b.bindPoint

def collectSteps (resources : Option ResourceDefinitions) (program : Option Program) :
    List WordStep :=
  addUncoveredSteps ((resources.toList.flatMap (·.bindings)).filterMap ofBinding?)
    ((program.toList.flatMap Program.declarations).filterMap ofDeclaration?)

/-- The sampler for a slot: an element of an array where the texture takes several slots. -/
def samplerAt (t : Texture) (slot : Nat) : Expr :=
  let sampler := Expr.name (.sampler (identifier t.name))
  if 1 < t.bindCount then .element sampler (.natural (slot - t.bindPoint)) else sampler

def samplerSteps (t : Texture) (slot : Nat) : List WordStep :=
  if 1 < t.bindCount then [.difference slot t.bindPoint] else []

def declaration (t : Texture) : SamplerDeclaration :=
  match t.dimension.samplerSuffix? with
  | some suffix => .sampler t.returnType suffix (identifier t.name) t.bindCount
  | none => .notSampled t.name t.dimension

end Texture
end Glsl
end ShaderBytecode
