import ShaderBytecode.Program.Decode
import ShaderBytecode.Proofs.Program.OperandEncoding

/-!
# Writing operations

The words of an operation:

    first word, extension*, function index?, operand*

Every extension but the last, and the first word if there are extensions, says in its highest bit
that an extension follows. The first word also holds the number of words, in seven bits, so that an
operation of at most 127 words can be written.

Decoding inverts the writing for every layout whose operands are canonical
(`OperationLayout.entries_encode`).

The controls of the first word whose meaning depends on the opcode are kept as bits. Decoding keeps
the word itself, so that they are not lost.
-/

namespace ShaderBytecode

open TokenRead Program

/-! ### Extensions

An extension is told by its word alone. What chains them is the highest bit, and the other bits of
the word may be anything. -/

/-- What an extension word adds to an opcode: the first six bits say how the others are divided. -/
def OpcodeExtension.ofWord (w : UInt32) : OpcodeExtension :=
  match (w.toBitVec.extractLsb' 0 6).toNat with
  | 1 => .sampleControls (w.toBitVec.extractLsb' 9 4).toInt (w.toBitVec.extractLsb' 13 4).toInt
      (w.toBitVec.extractLsb' 17 4).toInt
  | 2 => .resourceDimension (.ofProgramCode (.ofNat (w.toBitVec.extractLsb' 6 5).toNat))
      (w.toBitVec.extractLsb' 11 12).toNat
  | 3 => .resourceReturnTypes
      ⟨.ofCode (.ofNat (w.toBitVec.extractLsb' 6 4).toNat),
        .ofCode (.ofNat (w.toBitVec.extractLsb' 10 4).toNat),
        .ofCode (.ofNat (w.toBitVec.extractLsb' 14 4).toNat),
        .ofCode (.ofNat (w.toBitVec.extractLsb' 18 4).toNat)⟩
  | _ => .other w

/-- The words of a chain of extensions, all but the last announcing another. -/
def extensionChain : List (BitVec 31) → List UInt32
  | [] => []
  | contents :: chain =>
    Token.pack [⟨31, contents⟩, .flag !chain.isEmpty] :: extensionChain chain

namespace Program

/-- A field that lies within a word is a piece of its bits. -/
theorem bits_eq_extractLsb' {shift width : Nat} (h : 0 < width ∧ shift + width ≤ 32)
    (w : UInt32) :
    Token.bits shift width w = .ok (w.toBitVec.extractLsb' shift width).toNat := by
  rw [Token.bits_eq_ok h, BitVec.extractLsb'_toNat, Nat.one_shiftLeft]
  rfl

/-- Four bits as a signed number. -/
theorem texelOffset_eq {shift : Nat} (h : shift + 4 ≤ 32) (w : UInt32) :
    texelOffset shift w = .ok (w.toBitVec.extractLsb' shift 4).toInt := by
  simp only [texelOffset, bits_eq_extractLsb' ⟨by decide, h⟩, Bind.bind, Except.bind]
  generalize w.toBitVec.extractLsb' shift 4 = n
  show Except.ok _ = Except.ok _
  rw [BitVec.toInt_eq_toNat_cond]
  have hn := n.isLt
  -- the upper half of the sixteen numbers is negative on both sides
  congr 1
  split <;> split <;> omega

/-- Four return types, of four bits each. -/
theorem returnTypes_eq {shift : Nat} (h : shift + 16 ≤ 32) (w : UInt32) :
    returnTypes shift w = .ok
      ⟨.ofCode (.ofNat (w.toBitVec.extractLsb' shift 4).toNat),
        .ofCode (.ofNat (w.toBitVec.extractLsb' (shift + 4) 4).toNat),
        .ofCode (.ofNat (w.toBitVec.extractLsb' (shift + 8) 4).toNat),
        .ofCode (.ofNat (w.toBitVec.extractLsb' (shift + 12) 4).toNat)⟩ := by
  have htype (i : Nat) (hi : i < 4) : Token.bits (shift + 4 * i) 4 w
      = .ok (w.toBitVec.extractLsb' (shift + 4 * i) 4).toNat :=
    bits_eq_extractLsb' ⟨by decide, by omega⟩ w
  simp only [returnTypes, htype 0 (by decide), htype 1 (by decide), htype 2 (by decide),
    htype 3 (by decide), Bind.bind, Except.bind, Except.map]
  rfl

/-- An extension is decoded from its word, whatever it holds. -/
theorem opcodeExtension_eq (w : UInt32) : opcodeExtension w = .ok (.ofWord w) := by
  simp only [opcodeExtension, OpcodeExtension.ofWord, Bind.bind, Except.bind,
    bits_eq_extractLsb' (by decide : 0 < 6 ∧ 0 + 6 ≤ 32),
    bits_eq_extractLsb' (by decide : 0 < 5 ∧ 6 + 5 ≤ 32),
    bits_eq_extractLsb' (by decide : 0 < 12 ∧ 11 + 12 ≤ 32),
    texelOffset_eq (by decide : 9 + 4 ≤ 32), texelOffset_eq (by decide : 13 + 4 ≤ 32),
    texelOffset_eq (by decide : 17 + 4 ≤ 32), returnTypes_eq (by decide : 6 + 16 ≤ 32)]
  generalize (w.toBitVec.extractLsb' 0 6).toNat = kind
  rcases kind with _ | _ | _ | _ | kind <;> rfl

/-- The highest bit of an extension is the one that announces another. -/
theorem isExtended_link (contents : BitVec 31) (b : Bool) :
    Token.isExtended (Token.pack [⟨31, contents⟩, .flag b]) = b :=
  Token.isExtended_pack rfl 1 rfl rfl

/-- A chain is read up to its end, whatever stands behind it. -/
theorem opcodeExtensionsFrom_chain (contents : BitVec 31) (chain : List (BitVec 31))
    (rest : List UInt32) (position : Nat) :
    opcodeExtensionsFrom (extensionChain (contents :: chain) ++ rest) position
      = .ok ((extensionChain (contents :: chain)).map .ofWord,
        ⟨rest, position + (extensionChain (contents :: chain)).length⟩) := by
  induction chain generalizing contents position with
  | nil =>
    simp only [extensionChain, List.cons_append, opcodeExtensionsFrom, opcodeExtension_eq,
      isExtended_link, Bind.bind, Except.bind]
    rfl
  | cons next chain ih =>
    rw [extensionChain, List.cons_append, opcodeExtensionsFrom, opcodeExtension_eq,
      isExtended_link]
    simp only [Bind.bind, Except.bind, ih next (position + 1), List.isEmpty_cons, Bool.not_false,
      ↓reduceIte, List.map_cons, List.length_cons, Nat.add_assoc, Nat.add_comm 1]
    rfl

/-- The extensions of an operation are read back. -/
theorem reads_opcodeExtensions {token : UInt32} {chain : List (BitVec 31)}
    (h : Token.isExtended token = !chain.isEmpty) :
    Reads (opcodeExtensions token) (extensionChain chain) ((extensionChain chain).map .ofWord) := by
  intro rest position
  cases chain with
  | nil => rw [opcodeExtensions, h]; rfl
  | cons contents chain =>
    rw [opcodeExtensions, h]
    exact opcodeExtensionsFrom_chain contents chain rest position

/-- Operands are read until no word is left. -/
theorem operandsFrom_encode {operands : List Operand} (h : ∀ o ∈ operands, o.Canonical)
    (hnesting : ∀ o ∈ operands, o.nesting ≤ Operand.maxRelativeDepth) (position : Nat) :
    operandsFrom ⟨operands.flatMap Operand.encode, position⟩ = .ok operands := by
  induction operands generalizing position with
  | nil => rw [operandsFrom]; rfl
  | cons o os ih =>
    have hrest := ih (fun o ho => h o (List.mem_cons_of_mem _ ho))
      (fun o ho => hnesting o (List.mem_cons_of_mem _ ho)) (position + o.encode.length)
    have hsplit : Operand.decode ⟨(o :: os).flatMap Operand.encode, position⟩
        = .ok (o, ⟨os.flatMap Operand.encode, position + o.encode.length⟩) :=
      Operand.reads_decode (h o List.mem_cons_self) (hnesting o List.mem_cons_self) _ position
    -- an operand is at least its first word
    have hword : ((o :: os).flatMap Operand.encode).isEmpty = false := by
      cases o
      rfl
    rw [operandsFrom, if_neg (by rw [hword]; decide)]
    split
    · next e he => cases hsplit.symm.trans he
    · next o' s ho =>
      cases hsplit.symm.trans ho
      rw [hrest]
      rfl

end Program

/-! ### Operations

Opcodes are written by their numbers. That these fit eleven bits is looked up for all of them. -/

namespace Opcode

/-- The numbers of all opcodes fit, in the order of the constructors. -/
theorem number_ofNat_lt : ∀ i, i < 215 → (Opcode.ofNat i).number < 1 <<< 11 := by
  decide +kernel

/-- The number of an opcode fits its field. -/
theorem number_lt (o : Opcode) : o.number < 1 <<< 11 := by
  have hlt := number_ofNat_lt o.ctorIdx o.ctorIdx_lt
  rwa [Opcode.ofNat_ctorIdx] at hlt

/-- No two opcodes have the same number. -/
theorem number_inj {o o' : Opcode} (h : o.number = o'.number) : o = o' := by
  have hfind := ofNumber?_number o
  rw [h, ofNumber?_number o'] at hfind
  exact (Option.some.inj hfind).symm

end Opcode

/-- An operation as it is written. -/
structure OperationLayout where
  opcode : Opcode
  /-- Bits 11 and 12 of the first word, whose meaning depends on the opcode. -/
  lowControls : BitVec 2
  saturate : Bool
  /-- Bits 14 to 17. -/
  middleControls : BitVec 4
  testNonzero : Bool
  /-- Bits 19 to 23. -/
  highControls : BitVec 5
  /-- What the extension words hold below the bit that announces another. -/
  extensions : List (BitVec 31)
  functionIndex : Option UInt32
  operands : List Operand

/-- Operands that are too few or too many have no roles by their number. -/
theorem OperandRoles.ofList_eq_generic {operands : List Operand}
    (h : operands.length < 2 ∨ 4 < operands.length) : ofList operands = generic operands := by
  match operands, h with
  | [], _ | [_], _ | _ :: _ :: _ :: _ :: _ :: _, _ => rfl
  | [_, _], h | [_, _, _], h | [_, _, _, _], h => simp at h

namespace OperationLayout

/-- The words behind the first. -/
def tail (l : OperationLayout) : List UInt32 :=
  extensionChain l.extensions ++ l.functionIndex.toList ++ l.operands.flatMap Operand.encode

/-- The fields of the first word. -/
def fields (l : OperationLayout) : List BitField :=
  [⟨11, .ofNat 11 l.opcode.number⟩, ⟨2, l.lowControls⟩, .flag l.saturate, ⟨4, l.middleControls⟩,
    .flag l.testNonzero, ⟨5, l.highControls⟩, ⟨7, .ofNat 7 (l.tail.length + 1)⟩,
    .flag !l.extensions.isEmpty]

/-- The first word. -/
def token (l : OperationLayout) : UInt32 := Token.pack l.fields

/-- The words of an operation. -/
def encode (l : OperationLayout) : List UInt32 := l.token :: l.tail

/-- What the operation says apart from its operands. -/
def head (l : OperationLayout) : OperationHead :=
  ⟨l.opcode, l.token, l.saturate, l.testNonzero, (extensionChain l.extensions).map .ofWord,
    l.functionIndex⟩

/-- A layout that can be written. -/
structure WellFormed (l : OperationLayout) : Prop where
  not_customData : l.opcode ≠ .customData
  not_declaration : l.opcode.isDeclaration = false
  functionIndex_iff : l.functionIndex.isSome ↔ l.opcode = .interfaceCall
  operands_canonical : ∀ o ∈ l.operands, o.Canonical
  operands_nesting : ∀ o ∈ l.operands, o.nesting ≤ Operand.maxRelativeDepth
  length_le : l.encode.length ≤ 127

/-! ### Reading the first word

The first word must be told before it is written, since it holds the number of words. The number
does not depend on the word itself. -/

variable {l : OperationLayout}

/-- The fields of a first word take all of its bits. -/
theorem bitCount_fields (l : OperationLayout) : BitField.bitCount l.fields = 32 := rfl

/-- The opcode is read back. -/
theorem number_token (l : OperationLayout) : Token.bits 0 11 l.token = .ok l.opcode.number := by
  have hnumber : (BitVec.ofNat 11 l.opcode.number).toNat = l.opcode.number :=
    Nat.mod_eq_of_lt l.opcode.number_lt
  exact Token.bits_pack l.bitCount_fields 0 rfl (congrArg (fun n => some (11, n)) hnumber)
    (by decide)

/-- Saturation is read back. -/
theorem saturate_token (l : OperationLayout) : Token.bit 13 l.token = .ok l.saturate :=
  Token.bit_pack l.bitCount_fields 2 rfl rfl

/-- The test is read back. -/
theorem testNonzero_token (l : OperationLayout) : Token.bit 18 l.token = .ok l.testNonzero :=
  Token.bit_pack l.bitCount_fields 4 rfl rfl

/-- The number of words is read back, if it fits. -/
theorem length_token (h : l.WellFormed) : Token.bits 24 7 l.token = .ok l.encode.length := by
  have hlength : (BitVec.ofNat 7 (l.tail.length + 1)).toNat = l.encode.length :=
    Nat.mod_eq_of_lt (Nat.lt_succ_of_le h.length_le)
  exact Token.bits_pack l.bitCount_fields 6 rfl (congrArg (fun n => some (7, n)) hlength)
    (by decide)

/-- Extensions are announced if there are any. -/
theorem isExtended_token (l : OperationLayout) :
    Token.isExtended l.token = !l.extensions.isEmpty :=
  Token.isExtended_pack l.bitCount_fields 7 rfl rfl

/-! ### Decoding what was written

An operation is read in the order in which it was written: extensions, a place in a table, operands.
-/

/-- The head is read back. -/
theorem reads_operationHead (h : l.WellFormed) :
    Reads (operationHead l.opcode l.token) (extensionChain l.extensions ++ l.functionIndex.toList)
      l.head := by
  -- the flags stand in the first word, so that nothing is left to read after the index
  have hflags (functionIndex : Option UInt32) : Reads (do
      let saturate ← Token.bit 13 l.token
      let testNonzero ← Token.bit 18 l.token
      return ⟨l.opcode, l.token, saturate, testNonzero,
        (extensionChain l.extensions).map .ofWord, functionIndex⟩ : TokenRead OperationHead) []
      ⟨l.opcode, l.token, l.saturate, l.testNonzero,
        (extensionChain l.extensions).map .ofWord, functionIndex⟩ :=
    (reads_lift l.saturate_token).bind ((reads_lift l.testNonzero_token).bind (reads_pure _))
  refine (reads_opcodeExtensions l.isExtended_token).bind ?_
  by_cases hcall : l.opcode = .interfaceCall
  · obtain ⟨w, hw⟩ := Option.isSome_iff_exists.1 (h.functionIndex_iff.2 hcall)
    rw [if_pos hcall, OperationLayout.head, hw]
    exact ((reads_word w).map some).bind (hflags (some w))
  · have hnone : l.functionIndex = none :=
      Option.not_isSome_iff_eq_none.1 fun hsome => hcall (h.functionIndex_iff.1 hsome)
    rw [if_neg hcall, OperationLayout.head, hnone]
    exact (reads_pure none).bind (hflags none)

/-- The operation is read back from its words. -/
theorem instruction_encode (h : l.WellFormed) (position : Nat) :
    instruction l.token l.tail position = .ok (.operation l.head l.operands) := by
  have hhead := reads_operationHead h (l.operands.flatMap Operand.encode) (position + 1)
  simp only [instruction, number_token, Opcode.ofNumber?_number, h.not_customData,
    h.not_declaration, tail, hhead, operandsFrom_encode h.operands_canonical h.operands_nesting,
    takeRoles_eq, Bind.bind, Except.bind]
  rfl

/-- The words of an operation are as many as it says. -/
theorem instructionLength_encode (h : l.WellFormed) :
    instructionLength l.token l.tail = .ok l.encode.length := by
  have hnumber : l.opcode.number ≠ Opcode.customData.number := by
    intro heq
    exact h.not_customData (Opcode.number_inj heq)
  have hpos : l.encode.length ≠ 0 := Nat.succ_ne_zero _
  simp only [instructionLength, number_token, length_token h, hnumber, hpos, or_self, if_false,
    Bind.bind, Except.bind]
  rfl

/-- A program of one operation. -/
theorem decodeInstructions_encode (h : l.WellFormed) :
    decodeInstructions l.encode
      = .cons ⟨headerWords, .operation l.head l.operands⟩ .done := by
  have hfits : 0 < l.encode.length ∧ l.encode.length ≤ l.tail.length + 1 :=
    ⟨Nat.succ_pos _, Nat.le_refl _⟩
  have hall : l.encode.length - 1 = l.tail.length := rfl
  rw [decodeInstructions, encode, instructionsFrom, instructionLength_encode h]
  simp only [hfits, and_self, ↓reduceDIte, hall, List.take_length, List.drop_length,
    instruction_encode h]
  rw [instructionsFrom]

/-- **Decoding an operation gives what was written.** -/
theorem entries_encode (h : l.WellFormed) :
    entries l.encode = .ok [.operation l.head l.operands] ∧
    (∀ dst src, l.operands = [dst, src] → OperandRoles.ofList l.operands = .unary dst src) ∧
    (∀ dst a b, l.operands = [dst, a, b] →
      OperandRoles.ofList l.operands = .binary dst a b) ∧
    (∀ dst a b c, l.operands = [dst, a, b, c] →
      OperandRoles.ofList l.operands = .trinary dst a b c) ∧
    (l.operands.length < 2 ∨ 4 < l.operands.length →
      OperandRoles.ofList l.operands = .generic l.operands) := by
  refine ⟨?_, ?_, ?_, ?_, OperandRoles.ofList_eq_generic⟩
  · rw [entries, decodeInstructions_encode h]
    rfl
  · intro dst src hoperands
    rw [hoperands]
    rfl
  · intro dst a b hoperands
    rw [hoperands]
    rfl
  · intro dst a b c hoperands
    rw [hoperands]
    rfl

/-- A saturating move, with two extensions, of a negated source. The source stands in a constant
buffer, in the row that a register and a distance of 64 bits give. -/
def relativeMove : OperationLayout where
  opcode := .mov
  lowControls := 0
  saturate := true
  middleControls := 0
  testNonzero := false
  highControls := 0
  extensions := [0x1F600001, 0x7FFFFFFF]
  functionIndex := none
  operands :=
    [.mk ⟨0x00100032, .temp, .four (.mask 3), .none, .full, false⟩
        (.fixed .immediate32 0 .nil) none,
      .mk ⟨0x88208E46, .constantBuffer, .four (.swizzle .x .y .z .w), .neg, .float16, true⟩
        (.fixed .immediate32 1 (.relative .immediate64PlusRelative 0x500000007
          (.mk ⟨0x0010000A, .temp, .four (.single .x), .none, .full, false⟩
            (.fixed .immediate32 2 .nil) none) .nil)) none]

/-- The move is decoded to itself, the operand within its source included. -/
theorem entries_encode_relativeMove :
    relativeMove.encode.length = 12 ∧
      entries relativeMove.encode
        = .ok [.operation relativeMove.head relativeMove.operands] ∧
      ∃ dst src, OperandRoles.ofList relativeMove.operands = .unary dst src := by
  have hwell : relativeMove.WellFormed :=
    ⟨by decide, by decide, by decide, by decide, by decide, by decide⟩
  obtain ⟨hentries, hunary, -⟩ := entries_encode hwell
  exact ⟨rfl, hentries, _, _, hunary _ _ rfl⟩

end OperationLayout

end ShaderBytecode
