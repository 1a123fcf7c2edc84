import ShaderBytecode.Container.Basic
import ShaderBytecode.Description.Program

/-!
# Containers as documents
-/

namespace ShaderBytecode

def Header.toJson (h : Header) : Json :=
  .object [
    ("magic", .text h.magic.text),
    ("digest", .bytes h.digest.toArray),
    ("major_version", .nat h.majorVersion.toNat),
    ("minor_version", .nat h.minorVersion.toNat),
    ("size", .nat h.size.toNat),
    ("chunk_count", .nat h.chunkCount.toNat)]

/-- The document of a chunk, without its payload. -/
def Chunk.toJson (c : Chunk) : Json :=
  .object [("tag", .text c.tag.text), ("offset", .nat c.offset.toNat)]

def Container.toJson (c : Container) : Json :=
  .object [
    ("header", c.header.toJson),
    ("chunks", .ofList Chunk.toJson c.chunks),
    ("rdef", .ofOption ResourceDefinitions.toJson c.resources),
    ("input_signature", .ofOption Signature.toJson c.inputSignature),
    ("output_signature", .ofOption Signature.toJson c.outputSignature),
    ("patch_constant_signature", .ofOption Signature.toJson c.patchConstantSignature),
    ("shex", .ofOption Program.toJson c.program)]

end ShaderBytecode
