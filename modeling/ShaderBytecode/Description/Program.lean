import ShaderBytecode.Description.Signature
import ShaderBytecode.Program.Instruction

/-!
# Programs as documents

An operation with two, three or four operands is described as a destination with its sources, any
other by its list of operands.
-/

namespace ShaderBytecode

def Json.words (ws : List UInt32) : Json := .ofList (fun w => .nat w.toNat) ws

/-! ### Operands -/

def ComponentSelection.toJson : ComponentSelection → Json
  | mask lanes => .tagged "Mask" (.nat lanes.toNat)
  | swizzle x y z w => .tagged "Swizzle" (.ofList (fun l => .nat l.val) [x, y, z, w])
  | single component => .tagged "Select1" (.nat component.val)

def Components.toJson : Components → Json
  | zero => .text "Zero"
  | one => .text "One"
  | four selection => .tagged "Four" selection.toJson
  | many => .text "N"

def Literals.toJson : Literals → Json
  | bits32 values => .tagged "Bits32" (.words values)
  | bits64 values => .tagged "Bits64" (.ofList (fun v => .nat v.toNat) values)

mutual

def Operand.toJson : Operand → Json
  | .mk head indices literals =>
    .object [
      ("token", .nat head.token.toNat),
      ("operand_type", .text head.file.name),
      ("components", head.components.toJson),
      ("modifier", .text head.modifier.name),
      ("min_precision", .text head.minPrecision.name),
      ("non_uniform", .bool head.nonUniform),
      ("indices", .list indices.toJson),
      ("immediate", .ofOption Literals.toJson literals)]

def Indices.toJson : Indices → List Json
  | .nil => []
  | .fixed representation value rest =>
    .object [
      ("representation", .text representation.name),
      ("value", .nat value.toNat),
      ("relative", .null)] :: rest.toJson
  | .relative representation value base rest =>
    .object [
      ("representation", .text representation.name),
      ("value", .nat value.toNat),
      ("relative", base.toJson)] :: rest.toJson

end

/-! ### Instructions -/

def ReturnTypes.toJson (t : ReturnTypes) : Json :=
  .ofList (fun r => .text r.name) [t.x, t.y, t.z, t.w]

def OpcodeExtension.toJson : OpcodeExtension → Json
  | sampleControls u v w =>
    .tagged "SampleControls" (.object [("u", .number u), ("v", .number v), ("w", .number w)])
  | resourceDimension dimension stride =>
    .tagged "ResourceDim"
      (.object [("dimension", .text dimension.name), ("stride", .nat stride)])
  | resourceReturnTypes types => .tagged "ResourceReturnType" types.toJson
  | other token => .tagged "Other" (.nat token.toNat)

/-- The document of what an operation says apart from its operands. -/
def OperationHead.toJson (h : OperationHead) : Json :=
  .object [
    ("opcode", .text h.opcode.name),
    ("token", .nat h.token.toNat),
    ("saturate", .bool h.saturate),
    ("test_nonzero", .bool h.testNonzero),
    ("extended", .ofList OpcodeExtension.toJson h.extensions),
    ("function_index", .ofOption (fun i => .nat i.toNat) h.functionIndex)]

def Declaration.toJson : Declaration → Json
  | globalFlags flags => .tagged "GlobalFlags" (.nat flags)
  | constantBuffer operand dynamicallyIndexed =>
    .tagged "ConstantBuffer"
      (.object [("operand", operand.toJson), ("dynamic_indexed", .bool dynamicallyIndexed)])
  | sampler operand mode =>
    .tagged "Sampler" (.object [("operand", operand.toJson), ("mode", .text mode.name)])
  | resource operand dimension sampleCount returnTypes =>
    .tagged "Resource" (.object [
      ("operand", operand.toJson),
      ("dimension", .text dimension.name),
      ("sample_count", .nat sampleCount),
      ("return_type", returnTypes.toJson)])
  | input opcode operand interpolation systemValue =>
    .tagged "Input" (.object [
      ("opcode", .text opcode.name),
      ("operand", operand.toJson),
      ("interpolation", .ofOption (fun i => .text i.name) interpolation),
      ("system_value", .ofOption SystemValue.toJson systemValue)])
  | output opcode operand systemValue =>
    .tagged "Output" (.object [
      ("opcode", .text opcode.name),
      ("operand", operand.toJson),
      ("system_value", .ofOption SystemValue.toJson systemValue)])
  | temps count => .tagged "Temps" (.nat count.toNat)
  | indexableTemp register count components =>
    .tagged "IndexableTemp" (.object [
      ("register", .nat register.toNat),
      ("count", .nat count.toNat),
      ("components", .nat components.toNat)])
  | threadGroup x y z => .tagged "ThreadGroup" (.words [x, y, z])
  | other opcode words =>
    .tagged "Other" (.object [("opcode", .text opcode.name), ("tokens", .words words)])

def CustomData.toJson : CustomData → Json
  | immediateBuffer rows =>
    .tagged "ImmediateConstantBuffer" (.ofList (fun r => .ofList .float32 r.toList) rows)
  | other dataClass words =>
    .tagged "Other" (.object [("class", .nat dataClass), ("data", .words words)])

def Instruction.toJson : Instruction → Json
  | declaration d => .tagged "Declaration" d.toJson
  | operation head operands =>
    match OperandRoles.ofList operands with
    | .unary dst src =>
      .tagged "Unary"
        (.object [("header", head.toJson), ("dst", dst.toJson), ("src", src.toJson)])
    | .binary dst a b =>
      .tagged "Binary" (.object [
        ("header", head.toJson), ("dst", dst.toJson), ("src", .list [a.toJson, b.toJson])])
    | .trinary dst a b c =>
      .tagged "Trinary" (.object [
        ("header", head.toJson), ("dst", dst.toJson),
        ("src", .list [a.toJson, b.toJson, c.toJson])])
    | .generic operands =>
      .tagged "Generic"
        (.object [("header", head.toJson), ("operands", .ofList Operand.toJson operands)])
  | customData c => .tagged "CustomData" c.toJson
  | unknown number words =>
    .tagged "Unknown" (.object [("raw", .nat number), ("tokens", .words words)])

def Program.toJson (p : Program) : Json :=
  .object [
    ("major_version", .nat p.majorVersion.toNat),
    ("minor_version", .nat p.minorVersion.toNat),
    ("program_type", .text p.stage.name),
    ("opcodes", .ofList Instruction.toJson p.instructions)]

end ShaderBytecode
