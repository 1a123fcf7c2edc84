import ShaderBytecode.Proofs.Bytes.Records
import ShaderBytecode.Proofs.Program.Concatenation

/-!
# Length words

Custom data, and an instruction with a zero in the length field of its first word, has its length
in its second word. That word is there for the framing, but the decoder may get it to see again:

    length 1              : the word is not one of the instruction, and the next begins with it
    words kept or skipped : what is decoded is the same for every length word, up to a copy of it
    words that are read   : the length word is what the instruction reads first

`Program.readsOn` tells the last two apart by the first word of the instruction. Custom data skips
its length; operations and the declarations with fields read theirs.

An operation with a long length is thus an operation whose first operand begins with a small number.
This need not be a mistake of a compiler: the decoder takes a zero in the length field for a sign
that the length follows, and says nothing about what comes behind it.
-/

namespace ShaderBytecode

/-! ### The word behind the first

What an instruction begins with is told by its parts, without going back to words. An operand, for
one, has kept its first word. -/

/-- A declaration of such a kind has fields in the words behind its first. -/
def Opcode.hasFields : Opcode → Bool
  | .dclTemps | .dclIndexableTemp | .dclConstantBuffer | .dclSampler | .dclResource | .dclInput
  | .dclInputSgv | .dclInputSiv | .dclInputPs | .dclInputPsSgv | .dclInputPsSiv | .dclOutput
  | .dclOutputSgv | .dclOutputSiv | .dclThreadGroup => true
  | _ => false

/-- The first field of a declaration is a word. -/
def Declaration.BeginsWith (w : UInt32) : Declaration → Prop
  | .temps count => count = w
  | .indexableTemp register _ _ => register = w
  | .threadGroup x _ _ => x = w
  | .globalFlags _ | .other _ _ => False
  | .constantBuffer operand _ | .sampler operand _ | .resource operand _ _ _
  | .input _ operand _ _ | .output _ operand _ => operand.head.token = w

/-- The first thing behind the first word of an instruction stands for a word: an extension, the
place in a function table, the first word of an operand, or a field. -/
def Instruction.BeginsWith (w : UInt32) : Instruction → Prop
  | .declaration d => d.BeginsWith w
  | .operation head operands =>
    if Token.isExtended head.token then
      ∃ e, Program.opcodeExtension w = .ok e ∧ head.extensions.head? = some e
    else if head.opcode = .interfaceCall then head.functionIndex = some w
    else (operands.head?.map fun o => o.head.token) = some w
  | .customData _ | .unknown _ _ => False

/-- An instruction that is kept as its words, with another one in the second place. -/
def Instruction.withSecondWord (w : UInt32) : Instruction → Instruction
  | .declaration (.other opcode words) => .declaration (.other opcode (words.set 1 w))
  | .unknown number words => .unknown number (words.set 1 w)
  | i => i

namespace Program

open TokenRead

/-- The length of an instruction stands in the second word. -/
def LengthFollows (token : UInt32) : Prop :=
  Token.bits 0 11 token = .ok Opcode.customData.number ∨ Token.bits 24 7 token = .ok 0

/-- The opcode that the first word of an instruction gives, if it is known. -/
def opcode? (token : UInt32) : Option Opcode :=
  (Token.bits 0 11 token).toOption.bind Opcode.ofNumber?

/-- The words behind the first are read one by one, neither kept nor skipped. -/
def readsOn (token : UInt32) : Bool :=
  match opcode? token with
  | none | some .customData => false
  | some opcode =>
    if opcode.isDeclaration then !Token.isExtended token && opcode.hasFields else true

variable {token w : UInt32} {opcode : Opcode}

/-! ### What an action gives

Whether an action reads the next word cannot be seen from its type. `Gives` says what is known of a
result whatever was read, and `GivesAt` what is known of it where a certain word was next. -/

/-- Whatever the action gives has a property. -/
def Gives (P : α → Prop) (action : TokenRead α) : Prop :=
  ∀ s a s', action s = .ok (a, s') → P a

/-- Whatever the action gives, where a word is the next to be read, has a property. -/
def GivesAt (w : UInt32) (P : α → Prop) (action : TokenRead α) : Prop :=
  ∀ rest position a s', action ⟨w :: rest, position⟩ = .ok (a, s') → P a

section

variable {P : α → Prop} {Q : β → Prop} {action : TokenRead α} {next : α → TokenRead β}

/-- A result that is there. -/
theorem gives_pure {a : α} (h : P a) : Gives P (pure a) := by
  rintro s b s' ⟨⟩
  exact h

/-- A property of the last part is a property of the whole. -/
theorem Gives.bind (h : ∀ a, Gives Q (next a)) : Gives Q (action >>= next) := by
  intro s b s' hb
  simp only [Bind.bind, StateT.bind, Except.bind] at hb
  split at hb
  · cases hb
  · exact h _ _ _ _ hb

/-- The first part reads the word, and tells what is known of it. -/
theorem GivesAt.bind (h : GivesAt w P action) (h' : ∀ a, P a → Gives Q (next a)) :
    GivesAt w Q (action >>= next) := by
  intro rest position b s' hb
  simp only [Bind.bind, StateT.bind, Except.bind] at hb
  split at hb
  · cases hb
  · next ha => exact h' _ (h _ _ _ _ ha) _ _ _ hb

/-- A first part that does not read leaves the word to the second. -/
theorem GivesAt.lift {x : Except DecodeError α} (h : ∀ a, GivesAt w Q (next a)) :
    GivesAt w Q (liftM x >>= next) := by
  intro rest position b s' hb
  cases x with
  | error e => cases hb
  | ok a => exact h a _ _ _ _ hb

/-- A word that is read is the next word. -/
theorem givesAt_word : GivesAt w (· = w) word := by
  rintro rest position a s' ⟨⟩
  rfl

end

/-- An operand keeps its first word. -/
theorem givesAt_operand : GivesAt w (fun o => o.head.token = w) Operand.decode :=
  givesAt_word.bind fun _ htoken =>
    .bind fun _ => .bind fun _ => .bind fun _ => .bind fun _ => .bind fun _ => .bind fun _ =>
      gives_pure htoken

/-! ### Declarations

Most declarations with fields begin with an operand. Those without fields are kept as their words.
-/

/-- A declaration without fields does not look at the second word. -/
theorem declaration_kept (h : (!Token.isExtended token && opcode.hasFields) = false)
    {rest : List UInt32} {position : Nat} {d : Declaration} {s : TokenStream}
    (hd : declaration opcode token (token :: w :: rest) ⟨w :: rest, position⟩ = .ok (d, s))
    (w' : UInt32) :
    ∃ d' s', declaration opcode token (token :: w' :: rest) ⟨w' :: rest, position⟩ = .ok (d', s') ∧
      Instruction.declaration d' = (Instruction.declaration d).withSecondWord w' := by
  unfold declaration at hd ⊢
  -- an extended token is followed by its extension
  cases hext : Token.isExtended token with
  | true =>
    rw [hext, if_pos rfl] at hd
    cases hd
    exact ⟨_, _, rfl, rfl⟩
  | false =>
    rw [hext] at hd h
    simp only [Bool.false_eq_true, if_false] at hd ⊢
    -- otherwise it is one of the two kinds without fields
    split at hd
    case h_1 =>
      cases hd
      exact ⟨_, _, rfl, rfl⟩
    case h_17 =>
      cases hd
      exact ⟨_, _, rfl, rfl⟩
    all_goals cases h

/-- A declaration with fields begins with the second word. -/
theorem givesAt_declaration (hext : Token.isExtended token = false)
    (hfields : opcode.hasFields = true) (words : List UInt32) :
    GivesAt w (·.BeginsWith w) (declaration opcode token words) := by
  have hwords (f : UInt32 → UInt32 → UInt32 → Declaration) (hf : ∀ b c, (f w b c).BeginsWith w) :
      GivesAt w (·.BeginsWith w) (do return f (← word) (← word) (← word)) :=
    givesAt_word.bind fun _ h => .bind fun _ => .bind fun _ => gives_pure (h ▸ hf _ _)
  have hoperand (f : Operand → Declaration)
      (hf : ∀ o, (f o).BeginsWith w ↔ o.head.token = w) :
      GivesAt w (·.BeginsWith w) (do return f (← Operand.decode)) :=
    givesAt_operand.bind fun o h => gives_pure ((hf o).2 h)
  have hvalue (f : Operand → SystemValue → Declaration)
      (hf : ∀ o v, (f o v).BeginsWith w ↔ o.head.token = w) :
      GivesAt w (·.BeginsWith w) (do return f (← Operand.decode) (← systemValue)) :=
    givesAt_operand.bind fun o h => .bind fun v => gives_pure ((hf o v).2 h)
  unfold declaration
  rw [hext]
  simp only [Bool.false_eq_true, if_false]
  split
  case h_1 => cases hfields
  case h_2 => exact givesAt_word.bind fun _ h => gives_pure h -- registers
  case h_3 => exact hwords _ fun _ _ => rfl -- arrays of registers
  case h_4 => exact .lift fun _ => hoperand _ fun _ => .rfl -- buffer
  case h_5 => exact .lift fun _ => hoperand _ fun _ => .rfl -- sampler
  case h_6 => -- resource
    exact .lift fun _ => .lift fun _ => givesAt_operand.bind fun _ h =>
      .bind fun _ => .bind fun _ => gives_pure h
  case h_7 => exact hoperand _ fun _ => .rfl -- input
  case h_8 => exact hvalue _ fun _ _ => .rfl
  case h_9 => exact hvalue _ fun _ _ => .rfl
  case h_10 => exact .lift fun _ => hoperand _ fun _ => .rfl -- input of a pixel program
  case h_11 => exact .lift fun _ => hvalue _ fun _ _ => .rfl
  case h_12 => exact .lift fun _ => hvalue _ fun _ _ => .rfl
  case h_13 => exact hoperand _ fun _ => .rfl -- output
  case h_14 => exact hvalue _ fun _ _ => .rfl
  case h_15 => exact hvalue _ fun _ _ => .rfl
  case h_16 => exact hwords _ fun _ _ => rfl -- thread group
  case h_17 => -- not a kind with fields
    unfold Opcode.hasFields at hfields
    split at hfields <;> simp_all only [reduceCtorEq, not_true_eq_false, imp_false]

/-! ### Operations

An operation may have extensions, and a call through an interface has a place in a table. Which of
these comes first decides what takes the second word. -/

/-- The first of the extensions is made from the second word. -/
theorem head?_of_opcodeExtensionsFrom {rest : List UInt32} {position : Nat}
    {es : List OpcodeExtension} {s : TokenStream}
    (h : opcodeExtensionsFrom (w :: rest) position = .ok (es, s)) :
    ∃ e, opcodeExtension w = .ok e ∧ es.head? = some e := by
  simp only [opcodeExtensionsFrom, Bind.bind, Except.bind] at h
  split at h
  · cases h
  · next e he =>
    refine ⟨e, he, ?_⟩
    split at h
    · split at h
      · cases h
      · cases h
        rfl
    · cases h
      rfl

/-- The head of an operation keeps its opcode and its first word. -/
theorem gives_operationHead (opcode : Opcode) (token : UInt32) :
    Gives (fun head => head.opcode = opcode ∧ head.token = token) (operationHead opcode token) := by
  refine .bind fun _ => ?_
  split <;> exact .bind fun _ => .bind fun _ => .bind fun _ => gives_pure ⟨rfl, rfl⟩

/-- Extensions that are announced begin with the next word. -/
theorem givesAt_opcodeExtensions (h : Token.isExtended token = true) :
    GivesAt w (fun es => ∃ e, opcodeExtension w = .ok e ∧ es.head? = some e)
      (opcodeExtensions token) := by
  intro rest position es s hes
  rw [opcodeExtensions, if_pos h] at hes
  exact head?_of_opcodeExtensionsFrom hes

/-- Without extensions nothing is read. -/
theorem opcodeExtensions_eq_lift (h : Token.isExtended token = false) :
    opcodeExtensions token = liftM (.ok [] : Except DecodeError (List OpcodeExtension)) := by
  funext s
  rw [opcodeExtensions, h]
  rfl

/-- An operation with extensions begins with one. -/
theorem givesAt_operationHead_extended (h : Token.isExtended token = true) :
    GivesAt w (fun head => ∃ e, opcodeExtension w = .ok e ∧ head.extensions.head? = some e)
      (operationHead opcode token) := by
  refine (givesAt_opcodeExtensions h).bind fun es hes => ?_
  split <;> exact .bind fun _ => .bind fun _ => .bind fun _ => gives_pure hes

/-- A call through an interface begins with a place in the function table. -/
theorem givesAt_operationHead_call (h : Token.isExtended token = false) :
    GivesAt w (fun head => head.functionIndex = some w) (operationHead .interfaceCall token) := by
  have hindex : GivesAt w (fun functionIndex => functionIndex = some w)
      (word >>= fun index => pure (some index)) :=
    givesAt_word.bind fun _ h => gives_pure (congrArg some h)
  unfold operationHead
  rw [opcodeExtensions_eq_lift h]
  refine .lift fun _ => ?_
  rw [if_pos rfl]
  exact hindex.bind fun _ h => .bind fun _ => .bind fun _ => gives_pure h

/-- The head of another operation is its first word alone. -/
theorem operationHead_rest {s s' : TokenStream} {head : OperationHead}
    (hext : Token.isExtended token = false) (hcall : opcode ≠ .interfaceCall)
    (h : operationHead opcode token s = .ok (head, s')) : s' = s := by
  unfold operationHead at h
  rw [opcodeExtensions_eq_lift hext] at h
  simp only [if_neg hcall, Token.bit, Token.bits_eq_ok (by decide : 0 < 1 ∧ 13 + 1 ≤ 32),
    Token.bits_eq_ok (by decide : 0 < 1 ∧ 18 + 1 ≤ 32)] at h
  cases h
  rfl

/-- The first operand begins with the next word. -/
theorem token_of_operandsFrom {rest : List UInt32} {position : Nat} {os : List Operand}
    (h : operandsFrom ⟨w :: rest, position⟩ = .ok os) :
    (os.head?.map fun o => o.head.token) = some w := by
  rw [operandsFrom, if_neg (by simp)] at h
  split at h
  · cases h
  · next o s' ho =>
    have htoken := givesAt_operand _ _ _ _ ho
    simp only [Bind.bind, Except.bind] at h
    split at h
    · cases h
    · cases h
      exact congrArg some htoken

/-- An operation begins with an extension, a place in the function table, or an operand. -/
theorem beginsWith_operation {rest : List UInt32} {position : Nat} {head : OperationHead}
    {s : TokenStream} {os : List Operand}
    (hhead : operationHead opcode token ⟨w :: rest, position⟩ = .ok (head, s))
    (hos : operandsFrom s = .ok os) : (Instruction.operation head os).BeginsWith w := by
  obtain ⟨rfl, rfl⟩ := gives_operationHead _ _ _ _ _ hhead
  simp only [Instruction.BeginsWith]
  cases hext : Token.isExtended head.token with
  | true =>
    rw [if_pos rfl]
    exact givesAt_operationHead_extended hext _ _ _ _ hhead
  | false =>
    -- an interface call reads its index first, any other operation its operands
    rw [if_neg Bool.false_ne_true]
    by_cases hcall : head.opcode = .interfaceCall
    · rw [if_pos hcall]
      rw [hcall] at hhead
      exact givesAt_operationHead_call hext _ _ _ _ hhead
    · rw [if_neg hcall]
      rw [operationHead_rest hext hcall hhead] at hos
      exact token_of_operandsFrom hos

/-! ### Instructions

An instruction is one of four kinds, told by its opcode. For each kind there is an equation, so that
the other lemmas need not look at the decoder again. -/

/-- An instruction whose opcode is not known is kept. -/
theorem instruction_eq_unknown (h : opcode? token = none) (rest : List UInt32) (position : Nat) :
    instruction token rest position
      = .ok (.unknown (token.toNat >>> 0 % 1 <<< 11) (token :: rest)) := by
  simp only [opcode?, instruction, Token.bits_eq_ok (by decide : 0 < 11 ∧ 0 + 11 ≤ 32),
    Except.toOption, Option.bind, Bind.bind, Except.bind] at h ⊢
  rw [h]
  rfl

/-- Custom data is taken apart by its class. -/
theorem instruction_eq_customData (h : opcode? token = some .customData) (rest : List UInt32)
    (position : Nat) :
    instruction token rest position
      = (customData token (token :: rest)).map Instruction.customData := by
  simp only [opcode?, instruction, Token.bits_eq_ok (by decide : 0 < 11 ∧ 0 + 11 ≤ 32),
    Except.toOption, Option.bind, Bind.bind, Except.bind] at h ⊢
  rw [h]
  simp only [if_true]
  cases customData token (token :: rest) <;> rfl

/-- A declaration is read from the words behind its first. -/
theorem instruction_eq_declaration (h : opcode? token = some opcode)
    (hdeclaration : opcode.isDeclaration = true) (rest : List UInt32) (position : Nat) :
    instruction token rest position
      = (declaration opcode token (token :: rest) ⟨rest, position + 1⟩).map
          fun p => .declaration p.1 := by
  have hdata : opcode ≠ .customData := by
    rintro rfl
    cases hdeclaration
  simp only [opcode?, instruction, Token.bits_eq_ok (by decide : 0 < 11 ∧ 0 + 11 ≤ 32),
    Except.toOption, Option.bind, Bind.bind, Except.bind] at h ⊢
  rw [h]
  simp only [if_neg hdata, if_pos hdeclaration]
  cases declaration opcode token (token :: rest) ⟨rest, position + 1⟩ <;> rfl

/-- An operation is its head and its operands. -/
theorem instruction_eq_operation (h : opcode? token = some opcode) (hdata : opcode ≠ .customData)
    (hdeclaration : opcode.isDeclaration = false) (rest : List UInt32) (position : Nat) :
    instruction token rest position
      = (operationHead opcode token ⟨rest, position + 1⟩).bind fun p =>
          (operandsFrom p.2).map (Instruction.operation p.1) := by
  simp only [opcode?, instruction, Token.bits_eq_ok (by decide : 0 < 11 ∧ 0 + 11 ≤ 32),
    Except.toOption, Option.bind, Bind.bind, Except.bind] at h ⊢
  rw [h]
  simp only [if_neg hdata, hdeclaration, Bool.false_eq_true, if_false, takeRoles_eq]
  cases operationHead opcode token ⟨rest, position + 1⟩ with
  | error e => rfl
  | ok p =>
    dsimp only
    cases operandsFrom p.2 <;> rfl

variable {rest : List UInt32} {position : Nat} {i : Instruction}

/-- What is kept or skipped is the same for every second word, up to a copy of it. -/
theorem instruction_of_readsOn_eq_false (h : readsOn token = false)
    (hi : instruction token (w :: rest) position = .ok i) (w' : UInt32) :
    instruction token (w' :: rest) position = .ok (i.withSecondWord w') := by
  unfold readsOn at h
  split at h
  · next hop =>
    rw [instruction_eq_unknown hop] at hi ⊢
    cases hi
    rfl
  · next hop =>
    -- the second word of custom data is skipped
    have hsame : customData token (token :: w' :: rest) = customData token (token :: w :: rest) :=
      rfl
    rw [instruction_eq_customData hop] at hi ⊢
    obtain ⟨c, hc, rfl⟩ := map_eq_ok_iff.1 hi
    rw [hsame, hc]
    rfl
  · next opcode hdata hop =>
    cases hdeclaration : opcode.isDeclaration with
    | false =>
      rw [hdeclaration] at h
      cases h
    | true =>
      rw [if_pos hdeclaration] at h
      rw [instruction_eq_declaration hop hdeclaration] at hi ⊢
      obtain ⟨⟨d, s⟩, hd, rfl⟩ := map_eq_ok_iff.1 hi
      obtain ⟨d', s', hd', hsecond⟩ := declaration_kept h hd w'
      rw [hd', ← hsecond]
      rfl

/-- What reads on begins with the second word. -/
theorem beginsWith_of_readsOn (h : readsOn token = true)
    (hi : instruction token (w :: rest) position = .ok i) : i.BeginsWith w := by
  unfold readsOn at h
  split at h
  · cases h
  · cases h
  · next opcode hdata hop =>
    -- a declaration or an operation
    cases hdeclaration : opcode.isDeclaration with
    | true =>
      rw [if_pos hdeclaration, Bool.and_eq_true, Bool.not_eq_true'] at h
      rw [instruction_eq_declaration hop hdeclaration] at hi
      obtain ⟨⟨d, s⟩, hd, rfl⟩ := map_eq_ok_iff.1 hi
      exact givesAt_declaration h.1 h.2 _ _ _ _ _ hd
    | false =>
      rw [instruction_eq_operation hop hdata hdeclaration] at hi
      cases hhead : operationHead opcode token ⟨w :: rest, position + 1⟩ with
      | error e =>
        rw [hhead] at hi
        cases hi
      | ok p =>
        obtain ⟨head, s⟩ := p
        rw [hhead] at hi
        obtain ⟨os, hos, rfl⟩ := map_eq_ok_iff.1 hi
        exact beginsWith_operation hhead hos

/-! ### Programs

The position of an instruction in the program is found by induction on the instructions in front. -/

/-- The length word gives the length, and is zero if there is no such word. -/
theorem instructionLength_of_lengthFollows (h : LengthFollows token) (rest : List UInt32) :
    instructionLength token rest = .ok ((rest.head?.map (·.toNat)).getD 0) := by
  simp only [LengthFollows, instructionLength, Token.bits_eq_ok (by decide : 0 < 11 ∧ 0 + 11 ≤ 32),
    Token.bits_eq_ok (by decide : 0 < 7 ∧ 24 + 7 ≤ 32), Except.ok.injEq, Bind.bind,
    Except.bind] at h ⊢
  rw [if_pos h]
  rfl

/-- The first instruction of an accepted program takes as many words as its length says, and the
others are decoded from the words behind these. -/
theorem instructionsFrom_eq_cons {words : List UInt32} {p : Placed} {ps : List Placed}
    (h : instructionsFrom position words = ⟨p :: ps, none⟩) :
    ∃ token rest length, words = token :: rest ∧ p.position = position ∧
      instructionLength token rest = .ok length ∧ 0 < length ∧ length ≤ rest.length + 1 ∧
      instruction token (rest.take (length - 1)) position = .ok p.instruction ∧
      instructionsFrom (position + length) (rest.drop (length - 1)) = ⟨ps, none⟩ := by
  unfold instructionsFrom at h
  split at h
  · cases h
  · next token rest =>
    split at h
    · cases h
    · next length hlength =>
      split at h
      · next hfits =>
        split at h
        · cases h
        · next i hi =>
          obtain ⟨hps, hfault⟩ := Run.mk.inj h
          obtain ⟨rfl, rfl⟩ := List.cons.inj hps
          refine ⟨token, rest, length, rfl, rfl, hlength, hfits.1, hfits.2, hi, ?_⟩
          rw [← hfault]
      · cases h

/-- So do the other instructions. -/
theorem instructionsFrom_split {words : List UInt32} {xs ys : List Placed} {p : Placed}
    (h : instructionsFrom position words = ⟨xs ++ p :: ys, none⟩) :
    ∃ before token rest length, words = before ++ token :: rest ∧
      p.position = position + before.length ∧
      instructionLength token rest = .ok length ∧ 0 < length ∧ length ≤ rest.length + 1 ∧
      instruction token (rest.take (length - 1)) p.position = .ok p.instruction ∧
      instructionsFrom (p.position + length) (rest.drop (length - 1)) = ⟨ys, none⟩ := by
  induction xs generalizing position words with
  | nil =>
    obtain ⟨token, rest, length, rfl, hposition, hrest⟩ := instructionsFrom_eq_cons h
    refine ⟨[], token, rest, length, rfl, hposition, ?_⟩
    rwa [hposition]
  | cons x xs ih =>
    obtain ⟨first, others, n, rfl, -, -, hpos, hle, -, hothers⟩ := instructionsFrom_eq_cons h
    obtain ⟨before, token, rest, length, hwords, hposition, hrest⟩ := ih hothers
    refine ⟨first :: (others.take (n - 1) ++ before), token, rest, length, ?_, ?_, hrest⟩
    · rw [List.cons_append, List.append_assoc, ← hwords, List.take_append_drop]
    · rw [hposition, List.length_cons, List.length_append, List.length_take]
      omega

/-- **Only some instructions leave their length word alone.** In an accepted program, take an
instruction whose length stands in its second word. The length is one word at least. If it is one,
the instruction is the first word alone, and the next instruction begins with the length word.
Otherwise the word is one of the instruction, and either the first thing that the instruction reads,
or not looked at: with another word in its place, and as many words behind it, the same would be
decoded. -/
theorem lengthWord_read {words : List UInt32} {xs ys : List Placed} {p : Placed}
    (h : decodeInstructions words = ⟨xs ++ p :: ys, none⟩) :
    ∃ before token rest, words = before ++ token :: rest ∧
      p.position = headerWords + before.length ∧
      (LengthFollows token → ∃ length tail, rest = length :: tail ∧
        1 ≤ length.toNat ∧ length.toNat ≤ tail.length + 2 ∧
        (length = 1 → instruction token [] p.position = .ok p.instruction ∧
          instructionsFrom (p.position + 1) (length :: tail) = ⟨ys, none⟩) ∧
        (length ≠ 1 → 2 ≤ length.toNat ∧
          instructionsFrom (p.position + length.toNat) (tail.drop (length.toNat - 2))
            = ⟨ys, none⟩ ∧
          (readsOn token = true → p.instruction.BeginsWith length) ∧
          (readsOn token = false → ∀ w,
            instruction token (w :: tail.take (length.toNat - 2)) p.position
              = .ok (p.instruction.withSecondWord w)))) := by
  obtain ⟨before, token, rest, length, hwords, hposition, hlength, hpos, hle, hi, hrest⟩ :=
    instructionsFrom_split h
  refine ⟨before, token, rest, hwords, hposition, fun hfollows => ?_⟩
  cases rest with
  | nil =>
    -- without a second word the length would be zero
    rw [instructionLength_of_lengthFollows hfollows] at hlength
    cases hlength
    exact absurd hpos (Nat.lt_irrefl 0)
  | cons w tail =>
    obtain rfl : w.toNat = length := by
      rw [instructionLength_of_lengthFollows hfollows] at hlength
      exact Except.ok.inj hlength
    refine ⟨w, tail, rfl, hpos, hle, ?_, fun hone => ?_⟩
    · rintro rfl
      exact ⟨hi, hrest⟩
    · have htwo : 2 ≤ w.toNat := by
        have hne : w.toNat ≠ 1 := fun h => hone (UInt32.toNat.inj h)
        omega
      obtain ⟨k, hk⟩ := Nat.exists_eq_add_of_le' htwo
      simp only [hk, Nat.add_sub_cancel] at hi hrest ⊢
      exact ⟨Nat.le_add_left 2 k, hrest, fun hreads => beginsWith_of_readsOn hreads hi,
        fun hreads => instruction_of_readsOn_eq_false hreads hi⟩

/-- A declaration of seven registers whose length stands in its second word. -/
def longTemps : List UInt32 := [104, 3, 7]

/-- The decoder takes three as the number of registers, and is content with that. -/
theorem decodeInstructions_longTemps :
    decodeInstructions longTemps = ⟨[⟨2, .declaration (.temps 3)⟩], none⟩ := by
  have hlength : instructionLength 104 [3, 7] = .ok 3 := rfl
  have hi : instruction 104 ([3, 7].take (3 - 1)) headerWords = .ok (.declaration (.temps 3)) :=
    rfl
  have hrest : instructionsFrom (headerWords + 3) ([3, 7].drop (3 - 1)) = .done := by
    rw [show [3, 7].drop (3 - 1) = ([] : List UInt32) from rfl, instructionsFrom]
  rw [decodeInstructions, longTemps, instructionsFrom, hlength]
  dsimp only
  rw [dif_pos (by decide), hi, hrest]
  rfl

/-- The declaration takes its own length for the number of registers. -/
theorem lengthWord_read_longTemps :
    ∃ before token length tail, longTemps = before ++ token :: length :: tail ∧
      LengthFollows token ∧ readsOn token = true ∧
      (Instruction.declaration (.temps 3)).BeginsWith length := by
  have hprogram : decodeInstructions longTemps
      = ⟨[] ++ ⟨2, .declaration (.temps 3)⟩ :: [], none⟩ := decodeInstructions_longTemps
  obtain ⟨before, token, rest, hwords, hposition, hread⟩ := lengthWord_read hprogram
  obtain rfl : before = [] := List.eq_nil_of_length_eq_zero (Nat.add_left_cancel hposition).symm
  obtain ⟨rfl, rfl⟩ := List.cons.inj hwords
  have hfollows : LengthFollows 104 := .inr rfl
  have hreads : readsOn 104 = true := by decide
  obtain ⟨length, tail, hrest, -, -, -, htwo⟩ := hread hfollows
  obtain ⟨rfl, rfl⟩ := List.cons.inj hrest
  exact ⟨[], 104, 3, [7], rfl, hfollows, hreads, (htwo (by decide)).2.2.1 hreads⟩

/-- It is not so that a length word is always one of its instruction and never read again. -/
theorem not_lengthWord_ignored :
    ¬ ∀ words xs p ys before token length tail,
      decodeInstructions words = ⟨xs ++ p :: ys, none⟩ →
      words = before ++ token :: length :: tail → p.position = headerWords + before.length →
      LengthFollows token →
      2 ≤ length.toNat ∧ ¬ p.instruction.BeginsWith length := by
  intro hclaim
  have hfollows : LengthFollows 104 := .inr rfl
  exact (hclaim longTemps [] ⟨2, .declaration (.temps 3)⟩ [] [] 104 3 [7]
    decodeInstructions_longTemps rfl rfl hfollows).2 rfl

end Program
end ShaderBytecode
