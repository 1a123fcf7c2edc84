import ShaderBytecode.Bytes.Row
import ShaderBytecode.Glsl.Statement
import ShaderBytecode.Resource.Kind

/-!
# Shaders

A shader in GLSL as data: the global declarations in the groups in which they are written, and the
statements of `main`. `Shader.text` writes it down.
-/

namespace ShaderBytecode
namespace Glsl

/-! ### Declarations -/

structure BlockMember where
  type : ValueType
  name : String
  /-- The length, for an array. -/
  length : Option Nat
  /-- The byte offset that a comment tells, if one does. -/
  offset : Option UInt32
deriving DecidableEq, Repr

def BlockMember.text (m : BlockMember) : String :=
  let length := match m.length with
    | some n => s!"[{n}]"
    | none => ""
  let comment := match m.offset with
    | some o => s!" // offset {o.toNat}"
    | none => ""
  s!"{m.type.text} {m.name}{length};{comment}"

/-- A uniform block, or a comment in the place of one. -/
inductive UniformBlockDeclaration where
  | block (binding : Option Nat) (name : String) (members : List BlockMember)
  /-- A buffer without variables, for which there is no block. -/
  | empty (bufferName : String)
deriving DecidableEq, Repr

def UniformBlockDeclaration.lines : UniformBlockDeclaration → List String
  | block binding name members =>
    let layout := match binding with
      | some n => s!"layout(std140, binding = {n})"
      | none => "layout(std140)"
    [s!"{layout} uniform {name} \x7b"] ++ members.map (fun m => indent ++ m.text)
      ++ ["\x7d;", ""]
  | empty bufferName => [s!"// {bufferName} has no variables"]

/-- A sampler, or a comment in the place of one. -/
inductive SamplerDeclaration where
  | sampler (returnType : ReturnType) (suffix : String) (name : String) (count : Nat)
  /-- A texture of a shape that is not sampled. -/
  | notSampled (textureName : String) (dimension : Dimension)
deriving DecidableEq, Repr

def SamplerDeclaration.line : SamplerDeclaration → String
  | sampler returnType suffix name count =>
    let length := if 1 < count then s!"[{count}]" else ""
    s!"uniform {returnType.samplerLetter}sampler{suffix} {name}{length};"
  | notSampled textureName dimension =>
    s!"// {textureName}: {dimension.name} is not a sampled texture"

/-- Where the value of a global register comes from or goes to. -/
inductive Linkage where
  /-- A provided variable: the register is a plain global. -/
  | provided
  /-- Another stage, by location. -/
  | location (qualifier : String) (direction : String)
deriving DecidableEq, Repr

structure RegisterDeclaration where
  linkage : Linkage
  type : ValueType
  file : RegisterFile
  number : Nat
  /-- The semantic that a comment tells, if one does. -/
  semantic : Option String
deriving DecidableEq, Repr

def RegisterDeclaration.line (d : RegisterDeclaration) : String :=
  let linkage := match d.linkage with
    | .provided => ""
    | .location qualifier direction =>
      s!"layout(location = {d.number}) {qualifier}{direction} "
  let comment := match d.semantic with
    | some s => s!" // {s}"
    | none => ""
  s!"{linkage}{d.type.text} {(Name.register d.file d.number).text};{comment}"

/-! ### Shaders -/

structure Shader where
  version : Nat
  /-- The profile of the program, if there is one. -/
  profile : Option String
  blocks : List UniformBlockDeclaration
  samplers : List SamplerDeclaration
  immediateBuffer : Option (List Row)
  inputs : List RegisterDeclaration
  outputs : List RegisterDeclaration
  body : List Statement

def rowExpr (r : Row) : Expr := .construct .vec4 (r.toList.map Expr.floatLiteral)

def immediateBufferLine (rows : List Row) : String :=
  let type := ValueType.vec4.text
  let name := Name.immediateBuffer.text
  let values := ", ".intercalate (rows.map fun r => (rowExpr r).text)
  s!"const {type} {name}[{rows.length}] = {type}[{rows.length}]({values});"

/-- Lines that form a group: behind them a blank line, unless there are none. -/
def groupLines (lines : List String) : List String :=
  if lines.isEmpty then [] else lines ++ [""]

def Shader.headLines (s : Shader) : List String :=
  [s!"#version {s.version}"] ++ (s.profile.map fun p => "// " ++ p).toList ++ [""]

def Shader.globalLines (s : Shader) : List String :=
  s.blocks.flatMap UniformBlockDeclaration.lines
    ++ groupLines (s.samplers.map SamplerDeclaration.line)
    ++ groupLines ((s.immediateBuffer.map immediateBufferLine).toList)
    ++ groupLines (s.inputs.map RegisterDeclaration.line)
    ++ groupLines (s.outputs.map RegisterDeclaration.line)

def Shader.mainLines (s : Shader) : List String :=
  ["void main() \x7b"] ++ s.body.flatMap (fun t => t.lines.map (indent ++ ·)) ++ ["\x7d"]

def Shader.lines (s : Shader) : List String := s.headLines ++ s.globalLines ++ s.mainLines

def Shader.text (s : Shader) : String := String.join (s.lines.map (· ++ "\n"))

end Glsl
end ShaderBytecode
