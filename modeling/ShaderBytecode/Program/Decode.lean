import ShaderBytecode.Program.Instruction
import ShaderBytecode.Program.OperandDecode
import ShaderBytecode.Run

/-!
# Decoding programs

A program payload is a version word, the number of words of the whole program, and the instructions.
Every instruction says in its first word how many words it takes; where that field is zero, and for
custom data always, the length stands in the second word. The words of an instruction bound what its
operands may use.

Instructions are decoded in order until one fails.
-/

namespace ShaderBytecode
namespace Program

open TokenRead

/-- The version and length words, which count as words of the program. -/
def headerWords : Nat := 2

/-! ### Operations -/

/-- A texel offset, a signed number of four bits. -/
def texelOffset (shift : Nat) (token : UInt32) : Except DecodeError Int := do
  let n ← Token.bits shift 4 token
  return if n < 8 then n else n - 16

def returnTypes (shift : Nat) (token : UInt32) : Except DecodeError ReturnTypes := do
  let type (i : Nat) : Except DecodeError ReturnType :=
    (Token.bits (shift + 4 * i) 4 token).map fun code => .ofCode (UInt32.ofNat code)
  return ⟨← type 0, ← type 1, ← type 2, ← type 3⟩

/-- What one extension word adds to an opcode. -/
def opcodeExtension (token : UInt32) : Except DecodeError OpcodeExtension := do
  match ← Token.bits 0 6 token with
  | 1 =>
    let u ← texelOffset 9 token
    let v ← texelOffset 13 token
    let w ← texelOffset 17 token
    return .sampleControls u v w
  | 2 =>
    let dimension ← Token.bits 6 5 token
    let stride ← Token.bits 11 12 token
    return .resourceDimension (.ofProgramCode (UInt32.ofNat dimension)) stride
  | 3 => return .resourceReturnTypes (← returnTypes 6 token)
  | _ => return .other token

/-- Read extensions until one says that none follows. -/
def opcodeExtensionsFrom : (words : List UInt32) → (position : Nat) →
    Except DecodeError (List OpcodeExtension × TokenStream)
  | [], position => .error (.operandOverrun position)
  | token :: words, position => do
    let e ← opcodeExtension token
    if Token.isExtended token then
      let (es, s) ← opcodeExtensionsFrom words (position + 1)
      return (e :: es, s)
    else return ([e], ⟨words, position + 1⟩)

/-- Read the extensions that follow a first word. -/
def opcodeExtensions (token : UInt32) : TokenRead (List OpcodeExtension) := fun s =>
  if Token.isExtended token then opcodeExtensionsFrom s.words s.position
  else .ok ([], s)

def operationHead (opcode : Opcode) (token : UInt32) : TokenRead OperationHead := do
  let extensions ← opcodeExtensions token
  -- the index of an interface call stands between the extensions and the operands
  let functionIndex ← if opcode = .interfaceCall then some <$> word else pure none
  let saturate ← Token.bit 13 token
  let testNonzero ← Token.bit 18 token
  return ⟨opcode, token, saturate, testNonzero, extensions, functionIndex⟩

/-- Read operands until no word is left. -/
def operandsFrom (s : TokenStream) : Except DecodeError (List Operand) :=
  if s.words.isEmpty then .ok []
  else
    match _h : Operand.decode s with
    | .error e => .error e
    | .ok (o, s') => do
      let os ← operandsFrom s'
      return o :: os
termination_by s.words.length
decreasing_by
  have := Operand.advances_decode s o s' _h
  omega

/-- Take the operands of an operation apart by what they are for. Their number says how many are
taken, so that none of them is missing or left over. -/
def takeRoles (operands : List Operand) : Except DecodeError OperandRoles :=
  match operands.length, operands with
  | 2, [dst, a] => .ok (.unary dst a)
  | 3, [dst, a, b] => .ok (.binary dst a b)
  | 4, [dst, a, b, c] => .ok (.trinary dst a b c)
  -- with two, three or four operands only the list of that length matches
  | 2, _ | 3, _ | 4, _ => .error (.unsupported .operandCount operands.length)
  | _, _ => .ok (.generic operands)

@[simp] theorem takeRoles_eq (operands : List Operand) :
    takeRoles operands = .ok (.ofList operands) := by
  match operands with
  | [] | [_] | [_, _] | [_, _, _] | [_, _, _, _] | _ :: _ :: _ :: _ :: _ :: _ => rfl

/-! ### Custom data -/

def immediateBufferClass : Nat := 3

/-- The custom data in the words of an instruction. The first two words are its head. -/
def customData (token : UInt32) (words : List UInt32) : Except DecodeError CustomData := do
  let dataClass ← Token.bits 11 21 token
  let contents := words.drop 2
  if dataClass ≠ immediateBufferClass then return .other dataClass contents
  -- an immediate buffer has whole rows of four words
  if 4 * contents.length % 16 ≠ 0 then throw (.immediateBuffer (4 * contents.length))
  return .immediateBuffer (Row.ofWords contents)

/-! ### Declarations -/

def systemValue : TokenRead SystemValue := do return .ofCode (← word)

/-- Read a declaration behind its first word; `words` are all words of the instruction. A
declaration with an extension, or of a kind that is not taken apart, is kept as its words. -/
def declaration (opcode : Opcode) (token : UInt32) (words : List UInt32) :
    TokenRead Declaration := do
  -- extensions are not read as fields
  if Token.isExtended token then return .other opcode words
  match opcode with
  | .dclGlobalFlags => return .globalFlags (← Token.bits 11 13 token)
  | .dclTemps => return .temps (← word)
  | .dclIndexableTemp => return .indexableTemp (← word) (← word) (← word)
  | .dclConstantBuffer =>
    let dynamicallyIndexed ← Token.bit 11 token
    return .constantBuffer (← Operand.decode) dynamicallyIndexed
  | .dclSampler =>
    let mode ← Token.bits 11 4 token
    return .sampler (← Operand.decode) (.ofCode mode)
  | .dclResource =>
    let dimension ← Token.bits 11 5 token
    let sampleCount ← Token.bits 16 7 token
    let operand ← Operand.decode
    let types ← returnTypes 0 (← word)
    return .resource operand (.ofProgramCode (UInt32.ofNat dimension)) sampleCount types
  | .dclInput => return .input opcode (← Operand.decode) none none
  | .dclInputSgv | .dclInputSiv =>
    return .input opcode (← Operand.decode) none (some (← systemValue))
  | .dclInputPs =>
    let interpolation ← Token.bits 11 4 token
    return .input opcode (← Operand.decode) (some (.ofCode interpolation)) none
  | .dclInputPsSgv | .dclInputPsSiv =>
    let interpolation ← Token.bits 11 4 token
    return .input opcode (← Operand.decode) (some (.ofCode interpolation)) (some (← systemValue))
  | .dclOutput => return .output opcode (← Operand.decode) none
  | .dclOutputSgv | .dclOutputSiv =>
    return .output opcode (← Operand.decode) (some (← systemValue))
  | .dclThreadGroup => return .threadGroup (← word) (← word) (← word)
  | _ => return .other opcode words

/-! ### Instructions -/

def instruction (token : UInt32) (rest : List UInt32) (position : Nat) :
    Except DecodeError Instruction := do
  let number ← Token.bits 0 11 token
  let s : TokenStream := ⟨rest, position + 1⟩
  match Opcode.ofNumber? number with
  | none => return .unknown number (token :: rest)
  | some opcode =>
    if opcode = .customData then return .customData (← customData token (token :: rest))
    if opcode.isDeclaration then
      return .declaration (← declaration opcode token (token :: rest) s).1
    let (head, s) ← operationHead opcode token s
    let operands ← operandsFrom s
    let _ ← takeRoles operands
    return .operation head operands

/-- The number of words that the instruction at the front of the words takes. -/
def instructionLength (token : UInt32) (rest : List UInt32) : Except DecodeError Nat := do
  let number ← Token.bits 0 11 token
  let length ← Token.bits 24 7 token
  -- custom data and long declarations have their length in the word behind the token
  if number = Opcode.customData.number ∨ length = 0 then
    return (rest.head?.map (·.toNat)).getD 0
  else return length

/-- An instruction with its place in the program. -/
structure Placed where
  position : Nat
  instruction : Instruction

/-- Decode instructions, the first of which stands at `position`, until one fails. -/
def instructionsFrom (position : Nat) (words : List UInt32) : Run DecodeError Placed :=
  match words with
  | [] => .done
  | token :: rest =>
    match instructionLength token rest with
    | .error e => .stopped e
    | .ok length =>
      -- a length of zero would not advance, and a longer one would leave the program
      if _h : 0 < length ∧ length ≤ rest.length + 1 then
        match instruction token (rest.take (length - 1)) position with
        | .error e => .stopped e
        | .ok i =>
          .cons ⟨position, i⟩ (instructionsFrom (position + length) (rest.drop (length - 1)))
      else .stopped (.instructionLength position length (position + rest.length + 1))
termination_by words.length
decreasing_by
  simp only [List.length_drop, List.length_cons]
  omega

def decodeInstructions (words : List UInt32) : Run DecodeError Placed :=
  instructionsFrom headerWords words

def entries (words : List UInt32) : Except DecodeError (List Instruction) :=
  (decodeInstructions words).result.map fun placed => placed.map (·.instruction)

/-! ### Payloads -/

/-- What a program payload holds in front of its instructions, and the words of these. -/
structure Framing where
  majorVersion : UInt8
  minorVersion : UInt8
  stage : Stage
  words : List UInt32

def framing (payload : Bytes) : Except DecodeError Framing := do
  let (version, words) ← Decode.fieldsAt payload 0 (do
    let version ← Cursor.u32
    let length ← Cursor.u32
    if length.toNat < headerWords then
      throw (.instructionLength 1 length.toNat (payload.size / 4))
    return (version, ← Cursor.words (length.toNat - headerWords)) :
      Decode (UInt32 × List UInt32))
  let stage ← Stage.ofProgramCode (version >>> 16)
  return ⟨(version >>> 4 &&& 0xF).toUInt8, (version &&& 0xF).toUInt8, stage, words⟩

def decode (payload : Bytes) : Except DecodeError Program := do
  let f ← framing payload
  return ⟨f.majorVersion, f.minorVersion, f.stage, ← entries f.words⟩

/-- The entries with an unknown opcode that are met before decoding ends, with their places. -/
def skipped (payload : Bytes) : List (Nat × Nat) :=
  match framing payload with
  | .error _ => []
  | .ok f => (decodeInstructions f.words).completed.filterMap fun p =>
    match p.instruction with
    | .unknown number _ => some (number, p.position)
    | _ => none

end Program
end ShaderBytecode
