import ShaderBytecode.Json
import ShaderBytecode.Resource.Definitions

/-!
# Resource definitions as documents

A value with a name is the name as text. A code without a name is an object with the field `Other`.
-/

namespace ShaderBytecode

/-- A value that is a name or else a code. -/
def Json.nameOrCode (name : String) (code : Option Nat) : Json :=
  match code with
  | none => .text name
  | some n => .tagged name (.nat n)

def Json.bytes (b : Bytes) : Json := .ofList (fun x => .nat x.toNat) b.toList

namespace BufferKind

def toJson (k : BufferKind) : Json :=
  .nameOrCode k.name (match k with | other c => some c.toNat | _ => none)

end BufferKind

namespace ComponentBase

def toJson (b : ComponentBase) : Json :=
  .nameOrCode b.name (match b with | other c => some c.toNat | _ => none)

end ComponentBase

namespace BindingKind

def toJson (k : BindingKind) : Json :=
  .nameOrCode k.name (match k with | other c => some c.toNat | _ => none)

end BindingKind

mutual

def VariableType.toJson : VariableType → Json
  | .mk shape members =>
    .object [
      ("class", .text shape.variableClass.name),
      ("base", shape.base.toJson),
      ("rows", .nat shape.rows.toNat),
      ("columns", .nat shape.columns.toNat),
      ("elements", .nat shape.elements.toNat),
      ("name", .ofOption .text shape.name),
      ("members", .list members.toJson)]

def Members.toJson : Members → List Json
  | .nil => []
  | .cons name offset type rest =>
    .object [("name", .text name), ("offset", .nat offset.toNat), ("ty", type.toJson)]
      :: rest.toJson

end

def Variable.toJson (v : Variable) : Json :=
  .object [
    ("name", .text v.name),
    ("offset", .nat v.offset.toNat),
    ("size", .nat v.size.toNat),
    ("flags", .nat v.flags.toNat),
    ("ty", v.type.toJson),
    ("default_value", .ofOption .bytes v.default)]

def ConstantBuffer.toJson (b : ConstantBuffer) : Json :=
  .object [
    ("name", .text b.name),
    ("variables", .ofList Variable.toJson b.vars),
    ("size", .nat b.size.toNat),
    ("flags", .nat b.flags.toNat),
    ("buffer_type", b.kind.toJson)]

def ResourceBinding.toJson (b : ResourceBinding) : Json :=
  .object [
    ("name", .text b.name),
    ("input_type", b.kind.toJson),
    ("return_type", .text b.returnType.name),
    ("dimension", .text b.dimension.name),
    ("sample_count", .nat b.sampleCount.toNat),
    ("bind_point", .nat b.bindPoint.toNat),
    ("bind_count", .nat b.bindCount.toNat),
    ("flags", .nat b.flags.toNat)]

def AnnouncedSizes.toJson (a : AnnouncedSizes) : Json :=
  .object [
    ("header_size", .nat a.headerBytes.toNat),
    ("constant_buffer_size", .nat a.bufferBytes.toNat),
    ("variable_size", .nat a.variableBytes.toNat),
    ("type_size", .nat a.typeBytes.toNat),
    ("member_size", .nat a.memberBytes.toNat),
    ("binding_size", .nat a.bindingBytes.toNat),
    ("interface_slots", .nat a.interfaceSlots.toNat)]

def ResourceDefinitions.toJson (d : ResourceDefinitions) : Json :=
  .object [
    ("major_version", .nat d.majorVersion.toNat),
    ("minor_version", .nat d.minorVersion.toNat),
    ("program_type", .text d.stage.name),
    ("flags", .nat d.flags.toNat),
    ("creator", .text d.creator),
    ("rd11", .ofOption AnnouncedSizes.toJson d.announced),
    ("constant_buffers", .ofList ConstantBuffer.toJson d.buffers),
    ("resource_bindings", .ofList ResourceBinding.toJson d.bindings)]

end ShaderBytecode
