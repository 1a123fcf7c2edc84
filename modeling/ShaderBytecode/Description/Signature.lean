import ShaderBytecode.Description.Resource
import ShaderBytecode.Signature.Basic

/-!
# Signatures as documents
-/

namespace ShaderBytecode

namespace SystemValue

def toJson (v : SystemValue) : Json :=
  .nameOrCode v.name (match v with | other c => some c.toNat | _ => none)

end SystemValue

namespace ComponentType

def toJson (t : ComponentType) : Json :=
  .nameOrCode t.name (match t with | other c => some c.toNat | _ => none)

end ComponentType

def SignatureElement.toJson (e : SignatureElement) : Json :=
  .object [
    ("name", .text e.name),
    ("semantic_index", .nat e.semanticIndex.toNat),
    ("system_value", e.systemValue.toJson),
    ("component_type", e.componentType.toJson),
    ("register", .nat e.register.toNat),
    ("mask", .nat e.mask.toNat),
    ("rw_mask", .nat e.accessMask.toNat),
    ("stream", .nat e.stream.toNat),
    ("min_precision", .text e.minPrecision.name)]

def Signature.toJson (s : Signature) : Json :=
  .object [("elements", .ofList SignatureElement.toJson s.elements)]

end ShaderBytecode
