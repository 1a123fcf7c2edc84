import ShaderBytecode.Program.Decode

/-!
# Moving an instruction

A position takes part in decoding only as what an error names. When an instruction stands `n` words
further on, what is decoded is the same, and an error names a place `n` words further on.

* `DecodeError.shift`: the error, with the places it names moved
* `Placeless`: a result whose errors name no place, such as that of a bit field
* `Relocatable`: a reading action that only passes positions on

The two properties are kept by the combinators that the decoder is made of, so each reading action
has them for the reason its parts have them.

An error may name a place and a number of words that are available. Both count from the beginning of
the program, and both move.
-/

namespace ShaderBytecode

/-- The cause when everything stands `n` words further on. -/
def DecodeError.shift (n : Nat) : DecodeError → DecodeError
  | instructionLength position length available =>
    instructionLength (position + n) length (available + n)
  | operandOverrun position => operandOverrun (position + n)
  | cause => cause

/-- A result that does not depend on where in the program something stands. -/
def Placeless (x : Except DecodeError α) : Prop := ∀ n, x.mapError (·.shift n) = x

/-! ### Results without a place

Most errors name a word that was read, and not where it stands. -/

/-- A result that is there names no place. -/
theorem placeless_pure (a : α) : Placeless (pure a : Except DecodeError α) := fun _ => rfl

/-- A feature that is not supported is told by its number. -/
theorem placeless_unsupported (feature : Feature) (value : Nat) :
    Placeless (.error (.unsupported feature value) : Except DecodeError α) := fun _ => rfl

/-- A sequence of results without a place. -/
theorem Placeless.bind {x : Except DecodeError α} {f : α → Except DecodeError β}
    (h : Placeless x) (h' : ∀ a, Placeless (f a)) : Placeless (x >>= f) := by
  intro n
  cases x with
  | error e => exact congrArg _ (Except.error.inj (h n))
  | ok a => exact h' a n

/-- A change to a result without a place. -/
theorem Placeless.map {x : Except DecodeError α} (h : Placeless x) (f : α → β) :
    Placeless (x.map f) := by
  intro n
  cases x with
  | error e => exact congrArg _ (Except.error.inj (h n))
  | ok a => rfl

/-- A field names the word that it is in. -/
theorem placeless_bits (shift width : Nat) (w : UInt32) : Placeless (Token.bits shift width w) := by
  unfold Token.bits
  split <;> exact fun _ => rfl

/-- A flag names the word that it is in. -/
theorem placeless_bit (index : Nat) (w : UInt32) : Placeless (Token.bit index w) :=
  (placeless_bits index 1 w).map _

namespace TokenStream

/-- The same words, `n` words further on. -/
def shift (n : Nat) (s : TokenStream) : TokenStream := ⟨s.words, s.position + n⟩

/-- The words stay. -/
@[simp] theorem words_shift (n : Nat) (s : TokenStream) : (s.shift n).words = s.words := rfl

end TokenStream

namespace TokenRead

/-- What an action gives when it begins `n` words further on. -/
def relocated (n : Nat) :
    Except DecodeError (α × TokenStream) → Except DecodeError (α × TokenStream)
  | .ok (a, s) => .ok (a, s.shift n)
  | .error e => .error (e.shift n)

/-- The action passes positions on and makes nothing else of them. -/
def Relocatable (action : TokenRead α) : Prop :=
  ∀ n s, action (s.shift n) = relocated n (action s)

/-- A result that is there does not look at positions. -/
theorem relocatable_pure (a : α) : Relocatable (pure a : TokenRead α) := fun _ _ => rfl

/-- Nor does a failure that names no place. -/
theorem relocatable_throw (feature : Feature) (value : Nat) :
    Relocatable (throw (.unsupported feature value) : TokenRead α) := fun _ _ => rfl

/-- An action that does not touch the words. -/
theorem relocatable_lift {x : Except DecodeError α} (h : Placeless x) :
    Relocatable (liftM x : TokenRead α) := by
  intro n s
  cases x with
  | error e => exact congrArg _ (Except.error.inj (h n)).symm
  | ok a => rfl

/-- A sequence of actions that pass positions on. -/
theorem Relocatable.bind {action : TokenRead α} {next : α → TokenRead β}
    (h : Relocatable action) (h' : ∀ a, Relocatable (next a)) : Relocatable (action >>= next) := by
  intro n s
  simp only [Bind.bind, StateT.bind, Except.bind, h n s]
  cases action s with
  | error e => rfl
  | ok p => exact h' p.1 n p.2

/-- Reading a word passes its position on. -/
theorem relocatable_word : Relocatable word := by
  rintro n ⟨words, position⟩
  cases words with
  | nil => rfl
  | cons w words => simp only [word, TokenStream.shift, relocated, Nat.add_right_comm]

/-- Two words. -/
theorem relocatable_wide : Relocatable wide :=
  relocatable_word.bind fun _ => relocatable_word.bind fun _ => relocatable_pure _

/-- Words one after the other. -/
theorem relocatable_words : ∀ count, Relocatable (words count)
  | 0 => relocatable_pure _
  | count + 1 => relocatable_word.bind fun _ =>
      (relocatable_words count).bind fun _ => relocatable_pure _

/-- Numbers of two words, one after the other. -/
theorem relocatable_wides : ∀ count, Relocatable (wides count)
  | 0 => relocatable_pure _
  | count + 1 => relocatable_wide.bind fun _ =>
      (relocatable_wides count).bind fun _ => relocatable_pure _

end TokenRead

/-! ### Operands

An operand names a place only where a word is missing. -/

namespace Operand

open TokenRead

/-- The components of an operand. -/
theorem placeless_componentsOf (token : UInt32) : Placeless (componentsOf token) := by
  refine (placeless_bits 0 2 token).bind fun count => ?_
  split
  · exact placeless_pure _
  · exact placeless_pure _
  · refine (placeless_bits 2 2 token).bind fun mode => ?_
    split
    · exact (placeless_bits 4 4 token).bind fun _ => placeless_pure _
    · exact (placeless_bits 4 2 token).bind fun _ => (placeless_bits 6 2 token).bind fun _ =>
        (placeless_bits 8 2 token).bind fun _ => (placeless_bits 10 2 token).bind fun _ =>
        placeless_pure _
    · exact (placeless_bits 4 2 token).bind fun _ => placeless_pure _
    · exact placeless_unsupported _ _
  · exact placeless_pure _

/-- The file of an operand. -/
theorem placeless_fileOf (token : UInt32) : Placeless (fileOf token) := by
  refine (placeless_bits 12 8 token).bind fun number => ?_
  split
  · exact placeless_pure _
  · exact placeless_unsupported _ _

/-- The representation of an index. -/
theorem placeless_representationOf (token : UInt32) (slot : Nat) :
    Placeless (representationOf token slot) := by
  refine (placeless_bits (22 + 3 * slot) 3 token).bind fun code => ?_
  split
  · exact placeless_pure _
  · exact placeless_unsupported _ _

/-- An extension. -/
theorem placeless_next (e : Extension) (token : UInt32) : Placeless (e.next token) := by
  refine (placeless_bits 0 6 token).bind fun kind => ?_
  split
  · exact placeless_pure _
  · refine (placeless_bits 6 8 token).bind fun code => ?_
    split
    · exact (placeless_bits 14 3 token).bind fun _ => (placeless_bit 17 token).bind fun _ =>
        placeless_pure _
    · exact placeless_unsupported _ _

/-- A chain of extensions, which counts positions itself. -/
theorem extensionsFrom_add (e : Extension) (words : List UInt32) (position n : Nat) :
    extensionsFrom e words (position + n) = relocated n (extensionsFrom e words position) := by
  induction words generalizing e position with
  | nil => rfl
  | cons token words ih =>
    -- a single extension does not know where it stands
    have hnext := placeless_next e token n
    simp only [extensionsFrom, Bind.bind, Except.bind]
    cases hr : e.next token with
    | error err =>
      rw [hr] at hnext
      exact congrArg _ (Except.error.inj hnext).symm
    | ok e' =>
      simp only [Nat.add_right_comm position n 1]
      split
      · exact ih e' (position + 1)
      · rfl

/-- The extensions that a first word announces. -/
theorem relocatable_extensions (token : UInt32) : Relocatable (extensions token) := by
  intro n s
  unfold extensions
  split
  · exact extensionsFrom_add .none s.words s.position n
  · rfl

/-- An index, if the operand in it passes positions on. -/
theorem relocatable_index {nested : TokenRead Operand} (h : Relocatable nested)
    (representation : IndexRepresentation) : Relocatable (index nested representation) := by
  cases representation with
  | immediate32 => exact relocatable_word.bind fun _ => relocatable_pure _
  | immediate64 => exact relocatable_wide.bind fun _ => relocatable_pure _
  | relative => exact h.bind fun _ => relocatable_pure _
  | immediate32PlusRelative =>
    exact relocatable_word.bind fun _ => h.bind fun _ => relocatable_pure _
  | immediate64PlusRelative =>
    exact relocatable_wide.bind fun _ => h.bind fun _ => relocatable_pure _

/-- Indices. -/
theorem relocatable_indicesFrom {nested : TokenRead Operand} (h : Relocatable nested)
    (token : UInt32) (slot : Nat) : ∀ count, Relocatable (indicesFrom nested token slot count)
  | 0 => relocatable_pure _
  | count + 1 => (relocatable_lift (placeless_representationOf token slot)).bind fun _ =>
      (relocatable_index h _).bind fun _ =>
      (relocatable_indicesFrom h token (slot + 1) count).bind fun _ => relocatable_pure _

/-- Literal values. -/
theorem relocatable_literalValues (file : RegisterFile) (components : Components) :
    Relocatable (literalValues file components) := by
  unfold literalValues
  split
  · exact (relocatable_words _).bind fun _ => relocatable_pure _
  · exact (relocatable_wides _).bind fun _ => relocatable_pure _
  · exact relocatable_pure _

/-- An operand within an operand is read by the same action, one level down. -/
theorem relocatable_decodeNested : ∀ levels, Relocatable (decodeNested levels)
  | 0 => relocatable_throw _ _
  | levels + 1 => relocatable_word.bind fun token =>
      (relocatable_lift (placeless_componentsOf token)).bind fun _ =>
      (relocatable_lift (placeless_fileOf token)).bind fun _ =>
      (relocatable_lift (placeless_bits 20 2 token)).bind fun _ =>
      (relocatable_extensions token).bind fun _ =>
      (relocatable_indicesFrom (relocatable_decodeNested levels) token 0 _).bind fun _ =>
      (relocatable_literalValues _ _).bind fun _ => relocatable_pure _

/-- An operand. -/
theorem relocatable_decode : Relocatable decode := relocatable_decodeNested _

end Operand

/-! ### Operations

The same for operations. -/

namespace Program

open TokenRead

/-- One part of a texel offset. -/
theorem placeless_texelOffset (shift : Nat) (token : UInt32) :
    Placeless (texelOffset shift token) :=
  (placeless_bits shift 4 token).bind fun _ => placeless_pure _

/-- Four return types. -/
theorem placeless_returnTypes (shift : Nat) (token : UInt32) :
    Placeless (returnTypes shift token) :=
  have type (i : Nat) := (placeless_bits (shift + 4 * i) 4 token).map fun code =>
    ReturnType.ofCode (UInt32.ofNat code)
  (type 0).bind fun _ => (type 1).bind fun _ => (type 2).bind fun _ => (type 3).bind fun _ =>
    placeless_pure _

/-- An extension of an opcode. -/
theorem placeless_opcodeExtension (token : UInt32) : Placeless (opcodeExtension token) := by
  refine (placeless_bits 0 6 token).bind fun kind => ?_
  split
  · exact (placeless_texelOffset 9 token).bind fun _ => (placeless_texelOffset 13 token).bind
      fun _ => (placeless_texelOffset 17 token).bind fun _ => placeless_pure _
  · exact (placeless_bits 6 5 token).bind fun _ => (placeless_bits 11 12 token).bind fun _ =>
      placeless_pure _
  · exact (placeless_returnTypes 6 token).bind fun _ => placeless_pure _
  · exact placeless_pure _

/-- A chain of them. -/
theorem opcodeExtensionsFrom_add (words : List UInt32) (position n : Nat) :
    opcodeExtensionsFrom words (position + n)
      = relocated n (opcodeExtensionsFrom words position) := by
  induction words generalizing position with
  | nil => rfl
  | cons token words ih =>
    -- a single extension does not know where it stands
    have hnext := placeless_opcodeExtension token n
    simp only [opcodeExtensionsFrom, Bind.bind, Except.bind]
    cases hr : opcodeExtension token with
    | error err =>
      rw [hr] at hnext
      exact congrArg _ (Except.error.inj hnext).symm
    | ok e =>
      simp only [Nat.add_right_comm position n 1]
      split
      · rw [ih (position + 1)]
        cases opcodeExtensionsFrom words (position + 1) <;> rfl
      · rfl

/-- The extensions that the first word of an operation announces. -/
theorem relocatable_opcodeExtensions (token : UInt32) : Relocatable (opcodeExtensions token) := by
  intro n s
  unfold opcodeExtensions
  split
  · exact opcodeExtensionsFrom_add s.words s.position n
  · rfl

/-- The head of an operation. -/
theorem relocatable_operationHead (opcode : Opcode) (token : UInt32) :
    Relocatable (operationHead opcode token) := by
  refine (relocatable_opcodeExtensions token).bind fun extensions => ?_
  have hrest : ∀ functionIndex, Relocatable (do
      let saturate ← Token.bit 13 token
      let testNonzero ← Token.bit 18 token
      return ⟨opcode, token, saturate, testNonzero, extensions, functionIndex⟩ :
        TokenRead OperationHead) := fun _ =>
    (relocatable_lift (placeless_bit 13 token)).bind fun _ =>
      (relocatable_lift (placeless_bit 18 token)).bind fun _ => relocatable_pure _
  split
  · exact (relocatable_word.bind fun _ => relocatable_pure _).bind hrest
  · exact (relocatable_pure _).bind hrest

/-- Operands up to the end of the words. The recursion is the decoder's own, on the words that are
left. -/
theorem operandsFrom_shift (n : Nat) (s : TokenStream) :
    operandsFrom (s.shift n) = (operandsFrom s).mapError (·.shift n) := by
  fun_induction operandsFrom s with
  | case1 s hnil =>
    rw [operandsFrom, if_pos (by simpa using hnil)]
    rfl
  | case2 s hcons e he =>
    have hshift : Operand.decode (s.shift n) = .error (e.shift n) := by
      rw [Operand.relocatable_decode, he]
      rfl
    rw [operandsFrom, if_neg (by simpa using hcons)]
    -- the match keeps its equation for termination, so it cannot be rewritten
    split
    · next e' he' => cases hshift.symm.trans he'; rfl
    · next o s' ho => cases hshift.symm.trans ho
  | case3 s hcons o s' ho ih =>
    have hshift : Operand.decode (s.shift n) = .ok (o, s'.shift n) := by
      rw [Operand.relocatable_decode, ho]
      rfl
    rw [operandsFrom, if_neg (by simpa using hcons)]
    split
    · next e he => cases hshift.symm.trans he
    · next o' s'' ho' =>
      cases hshift.symm.trans ho'
      rw [ih]
      cases operandsFrom s' <;> rfl

/-! ### Declarations -/

theorem relocatable_systemValue : Relocatable systemValue :=
  relocatable_word.bind fun _ => relocatable_pure _

theorem relocatable_declaration (opcode : Opcode) (token : UInt32) (words : List UInt32) :
    Relocatable (declaration opcode token words) := by
  have hbits (shift width : Nat) := relocatable_lift (placeless_bits shift width token)
  have hwords (f : UInt32 → UInt32 → UInt32 → Declaration) :
      Relocatable (do return f (← word) (← word) (← word)) :=
    relocatable_word.bind fun _ => relocatable_word.bind fun _ => relocatable_word.bind fun _ =>
      relocatable_pure _
  have hoperand (f : Operand → Declaration) : Relocatable (do return f (← Operand.decode)) :=
    Operand.relocatable_decode.bind fun _ => relocatable_pure _
  have hvalue (f : Operand → SystemValue → Declaration) :
      Relocatable (do return f (← Operand.decode) (← systemValue)) :=
    Operand.relocatable_decode.bind fun _ => relocatable_systemValue.bind fun _ =>
      relocatable_pure _
  unfold declaration
  split
  · exact relocatable_pure _
  split
  case h_1 => exact (hbits 11 13).bind fun _ => relocatable_pure _ -- global flags
  case h_2 => exact relocatable_word.bind fun _ => relocatable_pure _ -- registers
  case h_3 => exact hwords _ -- arrays of registers
  case h_4 => exact (relocatable_lift (placeless_bit 11 token)).bind fun _ => hoperand _ -- buffer
  case h_5 => exact (hbits 11 4).bind fun _ => hoperand _ -- sampler
  case h_6 => -- resource
    exact (hbits 11 5).bind fun _ => (hbits 16 7).bind fun _ =>
      Operand.relocatable_decode.bind fun _ => relocatable_word.bind fun types =>
      (relocatable_lift (placeless_returnTypes 0 types)).bind fun _ => relocatable_pure _
  case h_7 => exact hoperand _ -- input
  case h_8 => exact hvalue _
  case h_9 => exact hvalue _
  case h_10 => exact (hbits 11 4).bind fun _ => hoperand _ -- input of a pixel program
  case h_11 => exact (hbits 11 4).bind fun _ => hvalue _
  case h_12 => exact (hbits 11 4).bind fun _ => hvalue _
  case h_13 => exact hoperand _ -- output
  case h_14 => exact hvalue _
  case h_15 => exact hvalue _
  case h_16 => exact hwords _ -- thread group
  case h_17 => exact relocatable_pure _

/-! ### Instructions

At the level of instructions the position is an argument and no part of a stream any more. -/

/-- Custom data names its class. -/
theorem placeless_customData (token : UInt32) (words : List UInt32) :
    Placeless (customData token words) := by
  refine (placeless_bits 11 21 token).bind fun dataClass => ?_
  split
  · exact placeless_pure _
  · dsimp only
    split
    · exact fun _ => rfl
    · exact placeless_pure _

/-- The length of an instruction is told by its words. -/
theorem placeless_instructionLength (token : UInt32) (rest : List UInt32) :
    Placeless (instructionLength token rest) := by
  refine (placeless_bits 0 11 token).bind fun number => ?_
  refine (placeless_bits 24 7 token).bind fun length => ?_
  split <;> exact placeless_pure _

/-- **An instruction reads the same wherever it stands.** -/
theorem instruction_add (token : UInt32) (rest : List UInt32) (position n : Nat) :
    instruction token rest (position + n)
      = (instruction token rest position).mapError (·.shift n) := by
  have hstart : (⟨rest, position + n + 1⟩ : TokenStream)
      = TokenStream.shift n ⟨rest, position + 1⟩ := by
    rw [TokenStream.shift, Nat.add_right_comm]
  simp only [instruction, hstart, Token.bits_eq_ok (by decide : 0 < 11 ∧ 0 + 11 ≤ 32),
    Bind.bind, Except.bind]
  split
  · rfl
  · next opcode _ =>
    split
    · -- custom data, a declaration or an operation
      exact ((placeless_customData token (token :: rest)).bind
        (fun _ => placeless_pure (Instruction.customData _)) n).symm
    split
    · rw [relocatable_declaration]
      cases declaration opcode token (token :: rest) ⟨rest, position + 1⟩ <;> rfl
    · rw [relocatable_operationHead]
      cases operationHead opcode token ⟨rest, position + 1⟩ with
      | error e => rfl
      | ok p =>
        simp only [relocated, operandsFrom_shift, takeRoles_eq]
        cases operandsFrom p.2 <;> rfl

end Program
end ShaderBytecode
