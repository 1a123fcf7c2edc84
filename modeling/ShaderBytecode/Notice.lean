import ShaderBytecode.Program.Opcode
import ShaderBytecode.Bytes.Tag

/-!
# Notices

What decoding and lowering have to say besides their result: what they come across, and what they
cannot make sense of and pass over.
-/

namespace ShaderBytecode

/-- How much a notice matters. -/
inductive Notice.Level where
  | warning
  | debug
deriving DecidableEq, Repr

def Notice.Level.text : Notice.Level → String
  | warning => "WARN"
  | debug => "DEBUG"

inductive Notice where
  /-- The magic tag stands here, but no container does. -/
  | rejectedCandidate (start : Nat)
  /-- A chunk is about to be decoded. -/
  | chunk (tag : Tag) (offset : UInt32) (size : Nat)
  /-- A chunk is of no known kind. -/
  | unknownChunk (tag : Tag)
  /-- An instruction has no known opcode. -/
  | skippedOpcode (number position : Nat)
  /-- An operand of literals has none. -/
  | noLiterals
  /-- A constant buffer operand has no row index. -/
  | noRow (slot : UInt32)
  /-- A row of a constant buffer is not that of a variable. -/
  | unresolvedRow (slot : UInt32) (index : String)
  /-- An opcode has no form in GLSL. -/
  | unmapped (opcode : Opcode)
deriving DecidableEq, Repr

namespace Notice

def level : Notice → Level
  | rejectedCandidate _ | chunk .. | skippedOpcode .. => .debug
  | unknownChunk _ | noLiterals | noRow _ | unresolvedRow .. | unmapped _ => .warning

def message : Notice → String
  | rejectedCandidate start => s!"rejected DXBC candidate at {Hex.literal start}"
  | chunk tag offset size =>
    s!"chunk {tag.text} at {Hex.literal offset.toNat}, {size} bytes"
  | unknownChunk tag => s!"passing through unknown DXBC chunk {tag.text}"
  | skippedOpcode number position => s!"skipping unknown opcode {number} at dword {position}"
  | noLiterals => "immediate operand without literal values"
  | noRow slot => s!"cb{slot.toNat} operand without a row index"
  | unresolvedRow slot index => s!"cb{slot.toNat}[{index}] does not resolve to a variable"
  | unmapped opcode => s!"no GLSL mapping for {opcode.mnemonic}"

def line (n : Notice) : String := s!"{n.level.text} {n.message}"

end Notice
end ShaderBytecode
