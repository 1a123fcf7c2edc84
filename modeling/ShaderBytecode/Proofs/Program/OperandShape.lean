import ShaderBytecode.Proofs.Bytes.Records
import ShaderBytecode.Proofs.Program.Blameless
import ShaderBytecode.Proofs.Program.OperandEncoding

/-!
# Decoded operands are well formed

Whatever words an operand is decoded from, its parts are those that its first word announces, and so
are the parts of the operands within its indices. The words that it takes are the next ones of the
stream.

    Operand.gives_decodeNested : Gives (decodeNested levels) fun o =>
      (∀ q ∈ o.preorder, q.WellFormed) ∧ o.nesting < levels

`Gives` follows a reading action step by step, as `Reads` does for words that are known. Decoding
goes down one level for the operands within indices, and so does the induction.

Being well formed does not say that the words are the only ones that give this operand. Bits of the
first word that nothing reads may be anything, and so may an extension that is not known.
-/

namespace ShaderBytecode

open TokenRead

/-! ### Reading actions

Each reading action has a statement about what it gives, to be used by the actions that it is a part
of. That the words of a part are the next ones of the stream goes with it. -/

/-- A stream is what is left of another one when the next words have been read. -/
def TokenStream.Follows (s' s : TokenStream) : Prop :=
  ∃ read, s.words = read ++ s'.words ∧ s'.position = s.position + read.length

namespace TokenStream.Follows

variable {s s' s'' : TokenStream}

/-- Nothing may be read as well. -/
theorem refl (s : TokenStream) : s.Follows s := ⟨[], rfl, rfl⟩

/-- What follows in two steps follows. -/
theorem trans (h : s''.Follows s') (h' : s'.Follows s) : s''.Follows s := by
  obtain ⟨read, hwords, hposition⟩ := h
  obtain ⟨read', hwords', hposition'⟩ := h'
  refine ⟨read' ++ read, ?_, ?_⟩
  · rw [hwords', hwords, List.append_assoc]
  · rw [hposition, hposition', List.length_append, Nat.add_assoc]

end TokenStream.Follows

namespace TokenRead

/-- What an action gives satisfies `post`, and the words it uses up are the next ones. -/
def Gives (action : TokenRead α) (post : α → Prop) : Prop :=
  ∀ s a s', action s = .ok (a, s') → post a ∧ s'.Follows s

/-- A result that is there reads nothing. -/
theorem gives_pure {a : α} {post : α → Prop} (h : post a) :
    Gives (pure a : TokenRead α) post := by
  intro s b s' hb
  cases hb
  exact ⟨h, .refl s⟩

/-- A failure gives nothing. -/
theorem gives_throw (e : DecodeError) (post : α → Prop) :
    Gives (throw e : TokenRead α) post := by
  intro s a s' h
  cases h

/-- What does not touch the words gives its result. -/
theorem gives_lift (x : Except DecodeError α) :
    Gives (liftM x : TokenRead α) fun a => x = .ok a := by
  intro s a s' h
  cases x with
  | error e => cases h
  | ok b =>
    cases h
    exact ⟨rfl, .refl s⟩

/-- What a sequence gives is told by its last part, which may rely on the parts in front. -/
theorem Gives.bind {action : TokenRead α} {next : α → TokenRead β} {post : α → Prop}
    {post' : β → Prop} (h : Gives action post) (h' : ∀ a, post a → Gives (next a) post') :
    Gives (action >>= next) post' := by
  intro s b s'' hb
  simp only [Bind.bind, StateT.bind, Except.bind] at hb
  cases ha : action s with
  | error e =>
    rw [ha] at hb
    cases hb
  | ok p =>
    obtain ⟨a, s'⟩ := p
    rw [ha] at hb
    obtain ⟨hpost, hfollows⟩ := h s a s' ha
    obtain ⟨hpost', hfollows'⟩ := h' a hpost s' b s'' hb
    exact ⟨hpost', hfollows'.trans hfollows⟩

/-- A word. -/
theorem gives_word : Gives word fun _ => True := by
  intro s a s' h
  unfold word at h
  split at h
  · next w words hwords =>
    cases h
    exact ⟨trivial, [_], hwords, rfl⟩
  · cases h

/-- A number of two words. -/
theorem gives_wide : Gives wide fun _ => True :=
  gives_word.bind fun _ _ => gives_word.bind fun _ _ => gives_pure trivial

/-- As many words as were asked for. -/
theorem gives_words : ∀ count, Gives (words count) (·.length = count)
  | 0 => gives_pure rfl
  | count + 1 => gives_word.bind fun _ _ => (gives_words count).bind fun _ hlength =>
      gives_pure (congrArg (· + 1) hlength)

/-- As many numbers as were asked for. -/
theorem gives_wides : ∀ count, Gives (wides count) (·.length = count)
  | 0 => gives_pure rfl
  | count + 1 => gives_wide.bind fun _ _ => (gives_wides count).bind fun _ hlength =>
      gives_pure (congrArg (· + 1) hlength)

end TokenRead

/-! ### Components

Selections are stored as they stand in the word. Two bits are always the number of a component, so
nothing is cut off. -/

/-- The number of a component is a field of the first word, as it stands. -/
def Lane.StandsAt (token : UInt32) (shift : Nat) (lane : Lane) : Prop :=
  Token.bits shift 2 token = .ok lane.val ∧ lane.val < 4

/-- The numbers of a selection are fields of the first word, as they stand. -/
def Components.StandIn (token : UInt32) : Components → Prop
  | .zero | .one | .many => True
  | .four (.mask lanes) => Token.bits 4 4 token = .ok lanes.toNat ∧ lanes.toNat < 16
  | .four (.swizzle x y z w) =>
    x.StandsAt token 4 ∧ y.StandsAt token 6 ∧ z.StandsAt token 8 ∧ w.StandsAt token 10
  | .four (.single component) => component.StandsAt token 4

/-- Two bits give the number of a component. -/
theorem Lane.standsAt_ofNat {shift n : Nat} {token : UInt32}
    (h : Token.bits shift 2 token = .ok n) : (Lane.ofNat n).StandsAt token shift := by
  have hval : (Lane.ofNat n).val = n := Nat.mod_eq_of_lt (bits_lt h)
  exact ⟨h.trans (congrArg _ hval.symm), (Lane.ofNat n).isLt⟩

/-- The components that are read stand in the first word. -/
theorem Operand.standIn_of_componentsOf {token : UInt32} {components : Components}
    (h : componentsOf token = .ok components) : components.StandIn token := by
  obtain ⟨count, -, h⟩ := bind_eq_ok_iff.1 h
  split at h
  · cases h -- no component
    trivial
  · cases h -- one component
    trivial
  · obtain ⟨mode, -, h⟩ := bind_eq_ok_iff.1 h
    split at h
    · obtain ⟨lanes, hlanes, h⟩ := bind_eq_ok_iff.1 h
      cases h
      have hval : (BitVec.ofNat 4 lanes).toNat = lanes := Nat.mod_eq_of_lt (bits_lt hlanes)
      exact ⟨hlanes.trans (congrArg _ hval.symm), (BitVec.ofNat 4 lanes).isLt⟩
    · obtain ⟨x, hx, h⟩ := bind_eq_ok_iff.1 h
      obtain ⟨y, hy, h⟩ := bind_eq_ok_iff.1 h
      obtain ⟨z, hz, h⟩ := bind_eq_ok_iff.1 h
      obtain ⟨w, hw, h⟩ := bind_eq_ok_iff.1 h
      cases h
      exact ⟨Lane.standsAt_ofNat hx, Lane.standsAt_ofNat hy, Lane.standsAt_ofNat hz,
        Lane.standsAt_ofNat hw⟩
    · obtain ⟨component, hcomponent, h⟩ := bind_eq_ok_iff.1 h
      cases h
      exact Lane.standsAt_ofNat hcomponent
    · cases h
  · cases h -- many components
    trivial

/-! ### Indices

A property of an operand and all operands within it is collected along its indices. -/

namespace Indices

/-- An index in front of others stands at the slot in front of theirs. -/
theorem InSlots.cons {i : Index} {rest : Indices} {token : UInt32} {slot : Nat}
    (h : rest.InSlots token (slot + 1))
    (hi : Operand.representationOf token slot = .ok i.representation) :
    (cons i rest).InSlots token slot := by
  intro k j hj
  rw [toList_cons] at hj
  cases k with
  | zero =>
    cases hj
    exact hi
  | succ k =>
    rw [Nat.add_comm k, ← Nat.add_assoc]
    exact h k j hj

/-- Operands within indices are those within the operands of the indices. -/
theorem forall_mem_preorder {post : Operand → Prop} : ∀ is : Indices,
    (∀ i ∈ is.toList, ∀ base ∈ i.base, ∀ q ∈ base.preorder, post q) → ∀ q ∈ is.preorder, post q
  | .nil, _ => nofun
  | .fixed _ _ rest, h =>
    rest.forall_mem_preorder fun i hi => h i (List.mem_cons_of_mem _ hi)
  | .relative _ _ base rest, h => List.forall_mem_append.2
      ⟨h _ List.mem_cons_self base rfl,
        rest.forall_mem_preorder fun i hi => h i (List.mem_cons_of_mem _ hi)⟩

/-- Indices nest as deep as the operands in them. -/
theorem nesting_le {levels : Nat} : ∀ is : Indices,
    (∀ i ∈ is.toList, ∀ base ∈ i.base, base.nesting < levels) → is.nesting ≤ levels
  | .nil, _ => Nat.zero_le _
  | .fixed _ _ rest, h => rest.nesting_le fun i hi => h i (List.mem_cons_of_mem _ hi)
  | .relative _ _ base rest, h => Nat.max_le.2
      ⟨h _ List.mem_cons_self base rfl,
        rest.nesting_le fun i hi => h i (List.mem_cons_of_mem _ hi)⟩

end Indices

namespace Operand

/-! ### Parts of an operand

The parts are shown to be as announced one after the other, in the order in which they are read. -/

/-- The parts of an operand are those that its first word announces. -/
structure WellFormed (o : Operand) : Prop where
  file : fileOf o.head.token = .ok o.file
  components : componentsOf o.head.token = .ok o.components
  selection : o.components.StandIn o.head.token
  length_indices : Token.bits 20 2 o.head.token = .ok o.indices.length
  representation : ∀ slot i, o.indices[slot]? = some i →
    representationOf o.head.token slot = .ok i.representation
  indices_shaped : ∀ i ∈ o.indices, i.Shaped
  literals_shaped : Literals.Shaped o.file o.components o.literals

/-- A chain of extensions takes the next words. -/
theorem follows_of_extensionsFrom {e e' : Extension} {words : List UInt32} {position : Nat}
    {s' : TokenStream} (h : extensionsFrom e words position = .ok (e', s')) :
    s'.Follows ⟨words, position⟩ := by
  induction words generalizing e position with
  | nil => cases h
  | cons token words ih =>
    obtain ⟨e'', -, h⟩ := bind_eq_ok_iff.1 h
    have hnext : TokenStream.Follows ⟨words, position + 1⟩ ⟨token :: words, position⟩ :=
      ⟨[token], rfl, rfl⟩
    split at h
    · exact (ih h).trans hnext
    · cases h
      exact hnext

/-- Extensions take the next words. -/
theorem gives_extensions (token : UInt32) : Gives (extensions token) fun _ => True := by
  intro s e s' h
  unfold extensions at h
  split at h
  · exact ⟨trivial, follows_of_extensionsFrom h⟩
  · cases h
    exact ⟨trivial, .refl s⟩

/-- An index has the shape of its representation. -/
theorem gives_index {nested : TokenRead Operand} {post : Operand → Prop} (h : Gives nested post)
    (r : IndexRepresentation) : Gives (index nested r) fun i =>
      i.representation = r ∧ i.Shaped ∧ ∀ base ∈ i.base, post base := by
  -- a word leaves the upper half of a value empty
  have hword (value : UInt32) : value.toUInt64.toNat < 1 <<< 32 := value.toNat_lt
  have hbase {o : Operand} (ho : post o) : ∀ base ∈ some o, post base := by
    rintro _ ⟨⟩
    exact ho
  cases r with
  | immediate32 =>
    exact gives_word.bind fun value _ => gives_pure ⟨rfl, ⟨hword value, rfl⟩, nofun⟩
  | immediate64 =>
    exact gives_wide.bind fun value _ => gives_pure ⟨rfl, ⟨value.toNat_lt, rfl⟩, nofun⟩
  | relative =>
    exact h.bind fun o ho => gives_pure ⟨rfl, ⟨Nat.one_pos, rfl⟩, hbase ho⟩
  | immediate32PlusRelative =>
    exact gives_word.bind fun value _ => h.bind fun o ho =>
      gives_pure ⟨rfl, ⟨hword value, rfl⟩, hbase ho⟩
  | immediate64PlusRelative =>
    exact gives_wide.bind fun value _ => h.bind fun o ho =>
      gives_pure ⟨rfl, ⟨value.toNat_lt, rfl⟩, hbase ho⟩

/-- Indices stand in their slots, and what is read for the registers in them is what `nested`
gives. -/
theorem gives_indicesFrom {nested : TokenRead Operand} {post : Operand → Prop}
    (h : Gives nested post) (token : UInt32) (slot : Nat) : ∀ count,
    Gives (indicesFrom nested token slot count) fun is =>
      is.toList.length = count ∧ is.InSlots token slot ∧
      ∀ i ∈ is.toList, i.Shaped ∧ ∀ base ∈ i.base, post base
  | 0 => gives_pure ⟨rfl, nofun, nofun⟩
  | count + 1 => by
    refine (gives_lift _).bind fun r hr => (gives_index h r).bind fun i hi => ?_
    obtain ⟨rfl, hi⟩ := hi
    refine (gives_indicesFrom h token (slot + 1) count).bind fun rest hrest => gives_pure ?_
    obtain ⟨hlength, hslots, hparts⟩ := hrest
    rw [Indices.toList_cons]
    refine ⟨congrArg (· + 1) hlength, hslots.cons hr, ?_⟩
    exact List.forall_mem_cons.2 ⟨hi, hparts⟩

/-- Literal values are those that the file asks for. -/
theorem gives_literalValues (file : RegisterFile) (components : Components) :
    Gives (literalValues file components) (Literals.Shaped file components) := by
  unfold literalValues
  split
  · exact (gives_words _).bind fun _ hlength => gives_pure ⟨rfl, hlength⟩
  · exact (gives_wides _).bind fun _ hlength => gives_pure ⟨rfl, hlength⟩
  · next h32 h64 => exact gives_pure ⟨h32, h64⟩

/-! ### Operands -/

/-- Every operand of a tree that is decoded is well formed. One level is left for the operand
itself. -/
theorem gives_decodeNested : ∀ levels, Gives (decodeNested levels) fun o =>
    (∀ q ∈ o.preorder, q.WellFormed) ∧ o.nesting < levels
  | 0 => gives_throw _ _
  | levels + 1 => by
    refine gives_word.bind fun token _ => ?_
    refine (gives_lift (componentsOf token)).bind fun components hcomponents => ?_
    refine (gives_lift (fileOf token)).bind fun file hfile => ?_
    refine (gives_lift (Token.bits 20 2 token)).bind fun dimension hdimension => ?_
    refine (gives_extensions token).bind fun extension _ => ?_
    refine (gives_indicesFrom (gives_decodeNested levels) token 0 dimension).bind
      fun indices hindices => ?_
    refine (gives_literalValues file components).bind fun literals hliterals => gives_pure ?_
    obtain ⟨hlength, hslots, hparts⟩ := hindices
    have hself : (mk ⟨token, file, components, extension.modifier, extension.minPrecision,
        extension.nonUniform⟩ indices literals).WellFormed :=
      { file := hfile
        components := hcomponents
        selection := standIn_of_componentsOf hcomponents
        length_indices := hlength ▸ hdimension
        representation := fun slot i hi => Nat.zero_add slot ▸ hslots slot i hi
        indices_shaped := fun i hi => (hparts i hi).1
        literals_shaped := hliterals }
    refine ⟨List.forall_mem_cons.2 ⟨hself, ?_⟩, Nat.lt_succ_of_le ?_⟩
    · exact indices.forall_mem_preorder fun i hi base hbase => ((hparts i hi).2 base hbase).1
    · exact indices.nesting_le fun i hi base hbase => ((hparts i hi).2 base hbase).2

/-- **Decoded operands are well formed**, down to the operands within their indices, and nest no
deeper than is accepted. An operand takes the next words of the stream, at least one. -/
theorem wellFormed_of_decode {s s' : TokenStream} {o : Operand} (h : decode s = .ok (o, s')) :
    (∀ q ∈ o.preorder, q.WellFormed) ∧ o.nesting ≤ maxRelativeDepth ∧
    ∃ read, read ≠ [] ∧ s.words = read ++ s'.words ∧ s'.position = s.position + read.length := by
  obtain ⟨⟨hwellFormed, hnesting⟩, read, hwords, hposition⟩ :=
    gives_decodeNested (maxRelativeDepth + 1) s o s' h
  refine ⟨hwellFormed, Nat.le_of_lt_succ hnesting, read, ?_, hwords, hposition⟩
  rintro rfl
  have hadvances := advances_decode s o s' h
  rw [hwords] at hadvances
  exact Nat.not_succ_le_self _ hadvances

/-- The row of the first buffer that is two behind the one a register names, `cb0[r1.x + 2]`, and a
word of the next instruction. -/
def relativeRow : TokenStream := ⟨[0x06208E46, 0, 2, 0x0010000A, 1, 0x0100003E], 7⟩

/-- The operand takes five words. It has two indices, and the register in the second one has one. -/
theorem wellFormed_of_decode_relativeRow :
    ∃ o, decode relativeRow = .ok (o, ⟨[0x0100003E], 12⟩) ∧ o.preorder.length = 2 ∧
      (∀ q ∈ o.preorder, q.WellFormed) ∧ o.nesting ≤ maxRelativeDepth := by
  obtain ⟨o, ho⟩ : ∃ o, decode relativeRow = .ok (o, ⟨[0x0100003E], 12⟩) := ⟨_, rfl⟩
  obtain ⟨hwellFormed, hnesting, -⟩ := wellFormed_of_decode ho
  refine ⟨o, ho, ?_, hwellFormed, hnesting⟩
  cases ho
  rfl

end Operand
end ShaderBytecode
