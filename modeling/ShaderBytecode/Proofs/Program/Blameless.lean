import ShaderBytecode.Program.Decode
import ShaderBytecode.Proofs.Blameless

/-!
# Programs are decoded without a defect

    blameless_decode : Blameless (decode payload)

A field is blameless for its place within the word. Only the words that tell how an operand
represents its indices need more: their place depends on the slot, and there are at most three slots
because their number stands in two bits.

A field that does not lie within a word would be a slip of the decoder, since the places of all
fields are written down in it. The proofs go through the decoder and look at each place once.
-/

namespace ShaderBytecode

/-! ### Fields

A place is refused before the word is looked at, so being blameless is a matter of the numbers
alone. -/

/-- A field that lies within a word can be asked for. -/
theorem blameless_bits {shift width : Nat} (h : 0 < width ∧ shift + width ≤ 32) (w : UInt32) :
    Blameless (Token.bits shift width w) := by
  rw [Token.bits_eq_ok h]
  exact blameless_pure _

/-- The same for a single bit. -/
theorem blameless_bit {index : Nat} (h : index < 32) (w : UInt32) :
    Blameless (Token.bit index w) :=
  (blameless_bits ⟨Nat.one_pos, h⟩ w).map _

/-- The blame for a field is the decoder's exactly if the field does not lie within a word. -/
theorem bits_eq_bitRange_iff {shift width : Nat} {w : UInt32} :
    Token.bits shift width w = .error (.bitRange shift width) ↔
      ¬ (0 < width ∧ shift + width ≤ 32) := by
  unfold Token.bits
  split <;> simp [*]

/-- A field is as small as its width says. -/
theorem bits_lt {shift width n : Nat} {w : UInt32} (h : Token.bits shift width w = .ok n) :
    n < 1 <<< width := by
  unfold Token.bits at h
  split at h
  · cases h
    rw [Nat.one_shiftLeft]
    exact Nat.mod_lt _ (Nat.two_pow_pos width)
  · cases h

/-! ### Words

Words run out because the input has too few of them. -/

namespace TokenRead

/-- A word that is missing is missed in the input. -/
theorem blameless_word : BlamelessFrom word := by
  intro s
  unfold word
  split
  · exact blameless_pure _
  · exact blameless_error Bool.false_ne_true

/-- Two words. -/
theorem blameless_wide : BlamelessFrom wide :=
  blameless_word.bind fun _ => blameless_word.bind fun _ => blamelessFrom_pure _

/-- Words one after the other. -/
theorem blameless_words : ∀ count, BlamelessFrom (words count)
  | 0 => blamelessFrom_pure _
  | count + 1 => blameless_word.bind fun _ =>
      (blameless_words count).bind fun _ => blamelessFrom_pure _

/-- Numbers of two words, one after the other. -/
theorem blameless_wides : ∀ count, BlamelessFrom (wides count)
  | 0 => blamelessFrom_pure _
  | count + 1 => blameless_wide.bind fun _ =>
      (blameless_wides count).bind fun _ => blamelessFrom_pure _

end TokenRead

/-! ### Operands

The places of most fields are numbers in the program, and `by decide` is enough for them. -/

namespace Operand

open TokenRead

/-- The components of an operand. -/
theorem blameless_componentsOf (token : UInt32) : Blameless (componentsOf token) := by
  have hbits {shift width : Nat} (h : 0 < width ∧ shift + width ≤ 32) := blameless_bits h token
  refine (hbits (by decide)).bind fun count _ => ?_
  split
  · exact blameless_pure _
  · exact blameless_pure _
  · refine (hbits (by decide)).bind fun mode _ => ?_
    split
    · exact (hbits (by decide)).bind fun _ _ => blameless_pure _
    · exact (hbits (by decide)).bind fun _ _ => (hbits (by decide)).bind fun _ _ =>
        (hbits (by decide)).bind fun _ _ => (hbits (by decide)).bind fun _ _ => blameless_pure _
    · exact (hbits (by decide)).bind fun _ _ => blameless_pure _
    · exact blameless_error Bool.false_ne_true
  · exact blameless_pure _

/-- The file of an operand. -/
theorem blameless_fileOf (token : UInt32) : Blameless (fileOf token) := by
  refine (blameless_bits (by decide) token).bind fun number _ => ?_
  split
  · exact blameless_pure _
  · exact blameless_error Bool.false_ne_true

/-- The representation of an index can be asked for, of the three slots that there are. -/
theorem blameless_representationOf (token : UInt32) {slot : Nat} (h : slot < 3) :
    Blameless (representationOf token slot) := by
  refine (blameless_bits (by omega) token).bind fun code _ => ?_
  split
  · exact blameless_pure _
  · exact blameless_error Bool.false_ne_true

/-- What an extension adds. -/
theorem blameless_next (e : Extension) (token : UInt32) : Blameless (e.next token) := by
  refine (blameless_bits (by decide) token).bind fun kind _ => ?_
  split
  · exact blameless_pure _
  · refine (blameless_bits (by decide) token).bind fun code _ => ?_
    split
    · exact (blameless_bits (by decide) token).bind fun _ _ =>
        (blameless_bit (by decide) token).bind fun _ _ => blameless_pure _
    · exact blameless_error Bool.false_ne_true

/-- A chain of extensions ends, or the words do. -/
theorem blameless_extensionsFrom (e : Extension) (words : List UInt32) (position : Nat) :
    Blameless (extensionsFrom e words position) := by
  induction words generalizing e position with
  | nil => exact blameless_error Bool.false_ne_true
  | cons token words ih =>
    refine (blameless_next e token).bind fun e' _ => ?_
    split
    · exact ih e' (position + 1)
    · exact blameless_pure _

/-- The extensions that a first word announces. -/
theorem blameless_extensions (token : UInt32) : BlamelessFrom (extensions token) := by
  intro s
  unfold extensions
  split
  · exact blameless_extensionsFrom _ _ _
  · exact blameless_pure _

/-- An index, if the operand in it is read without a defect. -/
theorem blameless_index {nested : TokenRead Operand} (h : BlamelessFrom nested)
    (representation : IndexRepresentation) : BlamelessFrom (index nested representation) := by
  cases representation with
  | immediate32 => exact blameless_word.bind fun _ => blamelessFrom_pure _
  | immediate64 => exact blameless_wide.bind fun _ => blamelessFrom_pure _
  | relative => exact h.bind fun _ => blamelessFrom_pure _
  | immediate32PlusRelative =>
    exact blameless_word.bind fun _ => h.bind fun _ => blamelessFrom_pure _
  | immediate64PlusRelative =>
    exact blameless_wide.bind fun _ => h.bind fun _ => blamelessFrom_pure _

/-- Indices, of which there are at most three. -/
theorem blameless_indicesFrom {nested : TokenRead Operand} (h : BlamelessFrom nested)
    (token : UInt32) {slot : Nat} : ∀ {count}, slot + count ≤ 3 →
    BlamelessFrom (indicesFrom nested token slot count)
  | 0, _ => blamelessFrom_pure _
  | count + 1, hcount =>
    (blamelessFrom_lift (blameless_representationOf token (by omega))).bind fun _ =>
      (blameless_index h _).bind fun _ =>
      (blameless_indicesFrom h token (by omega)).bind fun _ => blamelessFrom_pure _

/-- The literal values that a file asks for. -/
theorem blameless_literalValues (file : RegisterFile) (components : Components) :
    BlamelessFrom (literalValues file components) := by
  unfold literalValues
  split
  · exact (blameless_words _).bind fun _ => blamelessFrom_pure _
  · exact (blameless_wides _).bind fun _ => blamelessFrom_pure _
  · exact blamelessFrom_pure _

/-- An operand has at most three indices, and an operand within an operand is read one level
down. -/
theorem blameless_decodeNested : ∀ levels, BlamelessFrom (decodeNested levels)
  | 0 => blamelessFrom_throw Bool.false_ne_true
  | levels + 1 => by
    refine blameless_word.bind fun token => ?_
    refine (blamelessFrom_lift (blameless_componentsOf token)).bind fun _ => ?_
    refine (blamelessFrom_lift (blameless_fileOf token)).bind fun _ => ?_
    refine BlamelessFrom.lift_bind (blameless_bits (by decide) token) fun dimension hdimension => ?_
    refine (blameless_extensions token).bind fun _ => ?_
    have hslots : 0 + dimension ≤ 3 := by
      have := bits_lt hdimension
      omega
    exact (blameless_indicesFrom (blameless_decodeNested levels) token hslots).bind fun _ =>
      (blameless_literalValues _ _).bind fun _ => blamelessFrom_pure _

/-- An operand. -/
theorem blameless_decode : BlamelessFrom decode := blameless_decodeNested _

end Operand

/-! ### Operations -/

namespace Program

open TokenRead

/-- One part of a texel offset. -/
theorem blameless_texelOffset {shift : Nat} (h : shift + 4 ≤ 32) (token : UInt32) :
    Blameless (texelOffset shift token) :=
  (blameless_bits ⟨by decide, h⟩ token).bind fun _ _ => blameless_pure _

/-- Return types stand in four fields of four bits. -/
theorem blameless_returnTypes {shift : Nat} (h : shift + 16 ≤ 32) (token : UInt32) :
    Blameless (returnTypes shift token) := by
  have type {i : Nat} (hi : i < 4) := (blameless_bits (by omega : 0 < 4 ∧ shift + 4 * i + 4 ≤ 32)
    token).map fun code => ReturnType.ofCode (UInt32.ofNat code)
  exact (type (by decide)).bind fun _ _ => (type (by decide)).bind fun _ _ =>
    (type (by decide)).bind fun _ _ => (type (by decide)).bind fun _ _ => blameless_pure _

/-- An extension of an opcode. -/
theorem blameless_opcodeExtension (token : UInt32) : Blameless (opcodeExtension token) := by
  refine (blameless_bits (by decide) token).bind fun kind _ => ?_
  split
  · exact (blameless_texelOffset (by decide) token).bind fun _ _ =>
      (blameless_texelOffset (by decide) token).bind fun _ _ =>
      (blameless_texelOffset (by decide) token).bind fun _ _ => blameless_pure _
  · exact (blameless_bits (by decide) token).bind fun _ _ =>
      (blameless_bits (by decide) token).bind fun _ _ => blameless_pure _
  · exact (blameless_returnTypes (by decide) token).bind fun _ _ => blameless_pure _
  · exact blameless_pure _

/-- A chain of extensions of an opcode. -/
theorem blameless_opcodeExtensionsFrom (words : List UInt32) (position : Nat) :
    Blameless (opcodeExtensionsFrom words position) := by
  induction words generalizing position with
  | nil => exact blameless_error Bool.false_ne_true
  | cons token words ih =>
    refine (blameless_opcodeExtension token).bind fun e _ => ?_
    split
    · exact (ih (position + 1)).bind fun _ _ => blameless_pure _
    · exact blameless_pure _

/-- The extensions that a first word of an operation announces. -/
theorem blameless_opcodeExtensions (token : UInt32) : BlamelessFrom (opcodeExtensions token) := by
  intro s
  unfold opcodeExtensions
  split
  · exact blameless_opcodeExtensionsFrom _ _
  · exact blameless_pure _

/-- The head of an operation. -/
theorem blameless_operationHead (opcode : Opcode) (token : UInt32) :
    BlamelessFrom (operationHead opcode token) := by
  refine (blameless_opcodeExtensions token).bind fun extensions => ?_
  have hrest : ∀ functionIndex, BlamelessFrom (do
      let saturate ← Token.bit 13 token
      let testNonzero ← Token.bit 18 token
      return ⟨opcode, token, saturate, testNonzero, extensions, functionIndex⟩ :
        TokenRead OperationHead) := fun _ =>
    (blamelessFrom_lift (blameless_bit (by decide) token)).bind fun _ =>
      (blamelessFrom_lift (blameless_bit (by decide) token)).bind fun _ => blamelessFrom_pure _
  split
  · exact (blameless_word.bind fun _ => blamelessFrom_pure _).bind hrest
  · exact (blamelessFrom_pure _).bind hrest

/-- Operands are read as long as there are words. -/
theorem blameless_operandsFrom (s : TokenStream) : Blameless (operandsFrom s) := by
  fun_induction operandsFrom s with
  | case1 s hnil => exact blameless_pure _
  | case2 s hcons e he => exact blameless_error (Operand.blameless_decode s e he)
  | case3 s hcons o s' ho ih => exact ih.bind fun _ _ => blameless_pure _

/-! ### Declarations

Declarations differ in what they read, and each kind reads its fields in one sequence. -/

/-- A declaration of any kind. -/
theorem blameless_declaration (opcode : Opcode) (token : UInt32) (words : List UInt32) :
    BlamelessFrom (declaration opcode token words) := by
  have hbits {shift width : Nat} (h : 0 < width ∧ shift + width ≤ 32) :
      BlamelessFrom (liftM (Token.bits shift width token) : TokenRead Nat) :=
    blamelessFrom_lift (blameless_bits h token)
  have hwords (f : UInt32 → UInt32 → UInt32 → Declaration) :
      BlamelessFrom (do return f (← word) (← word) (← word)) :=
    blameless_word.bind fun _ => blameless_word.bind fun _ => blameless_word.bind fun _ =>
      blamelessFrom_pure _
  have hoperand (f : Operand → Declaration) :
      BlamelessFrom (do return f (← Operand.decode)) :=
    Operand.blameless_decode.bind fun _ => blamelessFrom_pure _
  have hvalue (f : Operand → SystemValue → Declaration) :
      BlamelessFrom (do return f (← Operand.decode) (← systemValue)) :=
    Operand.blameless_decode.bind fun _ =>
      (blameless_word.bind fun _ => blamelessFrom_pure _).bind fun _ => blamelessFrom_pure _
  unfold declaration
  split
  · exact blamelessFrom_pure _
  split
  case h_1 => exact (hbits (by decide)).bind fun _ => blamelessFrom_pure _ -- global flags
  case h_2 => exact blameless_word.bind fun _ => blamelessFrom_pure _ -- registers
  case h_3 => exact hwords _ -- arrays of registers
  case h_4 => -- buffer
    exact (blamelessFrom_lift (blameless_bit (by decide) token)).bind fun _ => hoperand _
  case h_5 => exact (hbits (by decide)).bind fun _ => hoperand _ -- sampler
  case h_6 => -- resource
    exact (hbits (by decide)).bind fun _ => (hbits (by decide)).bind fun _ =>
      Operand.blameless_decode.bind fun _ => blameless_word.bind fun types =>
      (blamelessFrom_lift (blameless_returnTypes (by decide) types)).bind fun _ =>
      blamelessFrom_pure _
  case h_7 => exact hoperand _ -- input
  case h_8 => exact hvalue _
  case h_9 => exact hvalue _
  case h_10 => exact (hbits (by decide)).bind fun _ => hoperand _ -- input of a pixel program
  case h_11 => exact (hbits (by decide)).bind fun _ => hvalue _
  case h_12 => exact (hbits (by decide)).bind fun _ => hvalue _
  case h_13 => exact hoperand _ -- output
  case h_14 => exact hvalue _
  case h_15 => exact hvalue _
  case h_16 => exact hwords _ -- thread group
  case h_17 => exact blamelessFrom_pure _

/-! ### Instructions -/

/-- Custom data is not looked into. -/
theorem blameless_customData (token : UInt32) (words : List UInt32) :
    Blameless (customData token words) := by
  refine (blameless_bits (by decide) token).bind fun dataClass _ => ?_
  split
  · exact blameless_pure _
  · dsimp only
    split
    · exact blameless_error Bool.false_ne_true
    · exact blameless_pure _

/-- Operands are taken apart by as many as there are, so no operation has too few or too many. -/
theorem blameless_takeRoles (operands : List Operand) : Blameless (takeRoles operands) := by
  rw [takeRoles_eq]
  exact blameless_pure _

/-- An instruction of any kind. -/
theorem blameless_instruction (token : UInt32) (rest : List UInt32) (position : Nat) :
    Blameless (instruction token rest position) := by
  refine (blameless_bits (by decide) token).bind fun number _ => ?_
  dsimp only
  split
  · exact blameless_pure _
  · next opcode _ =>
    split
    · exact (blameless_customData token (token :: rest)).bind fun _ _ => blameless_pure _
    split
    · exact (blameless_declaration opcode token (token :: rest) _).bind fun _ _ =>
        blameless_pure _
    · exact (blameless_operationHead opcode token _).bind fun p _ =>
        (blameless_operandsFrom p.2).bind fun operands _ =>
        (blameless_takeRoles operands).bind fun _ _ => blameless_pure _

/-- The length of an instruction. -/
theorem blameless_instructionLength (token : UInt32) (rest : List UInt32) :
    Blameless (instructionLength token rest) := by
  refine (blameless_bits (by decide) token).bind fun number _ => ?_
  refine (blameless_bits (by decide) token).bind fun length _ => ?_
  split <;> exact blameless_pure _

/-- Where decoding instructions stops, the input is to blame. -/
theorem blameless_instructionsFrom (position : Nat) (words : List UInt32) :
    Blameless (instructionsFrom position words).result := by
  fun_induction instructionsFrom position words with
  | case1 position => exact blameless_pure _
  | case2 position token rest e he =>
    exact blameless_error (blameless_instructionLength token rest e he)
  | case3 position token rest length hlength hfits e he =>
    exact blameless_error (blameless_instruction token _ position e he)
  | case4 position token rest length hlength hfits i hi ih =>
    rw [Run.result_cons]
    exact ih.map _
  | case5 position token rest length hlength hfits =>
    exact blameless_error Bool.false_ne_true

/-- The instructions of a program. -/
theorem blameless_entries (words : List UInt32) : Blameless (entries words) :=
  (blameless_instructionsFrom _ _).map _

/-! ### Payloads -/

/-- The framing of a program. -/
theorem blameless_framing (payload : Bytes) : Blameless (framing payload) := by
  refine (Decode.blameless_fieldsAt ?_ payload 0).bind fun p _ => ?_
  · refine .read_bind _ fun version => .read_bind _ fun length => ?_
    dsimp only
    split
    · refine BlamelessFrom.bind (blamelessFrom_throw ?_) fun _ =>
        .read_bind _ fun _ => blamelessFrom_pure _
      exact Bool.false_ne_true
    · exact .read_bind _ fun _ => blamelessFrom_pure _
  · refine Blameless.bind ?_ fun _ _ => blameless_pure _
    unfold Stage.ofProgramCode
    split
    · exact blameless_pure _
    · exact blameless_error Bool.false_ne_true

/-- A program payload is decoded without a defect. -/
theorem blameless_decode (payload : Bytes) : Blameless (decode payload) :=
  (blameless_framing payload).bind fun f _ =>
    (blameless_entries f.words).bind fun _ _ => blameless_pure _

end Program
end ShaderBytecode
