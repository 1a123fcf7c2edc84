import ShaderBytecode.Container.Basic
import ShaderBytecode.Text.Column

/-!
# Containers at a glance

A summary lists the chunks of a container, and, as far as they are there, its resources, its
signatures and how often its program uses each instruction.
-/

namespace ShaderBytecode

def Chunk.summary (c : Chunk) : String :=
  s!"  {c.tag.text} @ {Column.address c.offset.toNat} ({c.data.size} bytes)"

def Variable.summary (v : Variable) : String :=
  let unused := if v.isUsed then "" else " (unused)"
  s!"    {Column.number 6 v.offset.toNat} {Column.number 5 v.size.toNat} {v.name}{unused}"

def ConstantBuffer.summary (b : ConstantBuffer) : List String :=
  s!"  {b.kind.text} {b.name} ({b.size.toNat} bytes)" :: b.vars.map Variable.summary

def ResourceBinding.summary (b : ResourceBinding) : String :=
  s!"  {b.kind.text} {b.name} slot {b.bindPoint.toNat} x{b.bindCount.toNat} {b.dimension.name}"

def ResourceDefinitions.summary (d : ResourceDefinitions) : List String :=
  ["", s!"Reflection ({d.creator}):"]
    ++ d.buffers.flatMap ConstantBuffer.summary
    ++ d.bindings.map ResourceBinding.summary

def SignatureElement.summary (e : SignatureElement) : String :=
  s!"  {e.name}{e.semanticIndex.toNat} r{e.register.toNat} mask {Column.flags e.mask.toNat} "
    ++ s!"{e.componentType.text} {e.systemValue.text}"

def Signature.summary (title : String) (s : Signature) : List String :=
  ["", s!"{title}:"] ++ s.elements.map SignatureElement.summary

/-- The mnemonics of a program in alphabetical order, each with the number of its uses. -/
def Program.mnemonicCounts (p : Program) : List (String × Nat) :=
  let mnemonics := p.instructions.map Instruction.mnemonic
  let distinct := mnemonics.eraseDups.mergeSort fun a b => decide (a ≤ b)
  distinct.map fun mnemonic => (mnemonic, mnemonics.count mnemonic)

def Program.summary (p : Program) : List String :=
  ["", s!"Program {p.profile} ({p.instructions.length} opcodes):"]
    ++ p.mnemonicCounts.map fun (mnemonic, count) => s!"  {Column.number 5 count} {mnemonic}"

def Container.summaryLines (c : Container) : List String :=
  let h := c.header
  [s!"DXBC v{h.majorVersion.toNat}.{h.minorVersion.toNat}, {h.size.toNat} bytes, "
      ++ s!"{h.chunkCount.toNat} chunks"]
    ++ c.chunks.map Chunk.summary
    ++ c.resources.toList.flatMap ResourceDefinitions.summary
    ++ c.inputSignature.toList.flatMap (Signature.summary "Inputs")
    ++ c.outputSignature.toList.flatMap (Signature.summary "Outputs")
    ++ c.patchConstantSignature.toList.flatMap (Signature.summary "Patch constants")
    ++ c.program.toList.flatMap Program.summary

def Container.summary (c : Container) : String :=
  String.join (c.summaryLines.map (· ++ "\n"))

end ShaderBytecode
