import ShaderBytecode.Proofs.Glsl.NamedComments
import ShaderBytecode.Proofs.Glsl.RawBuffers
import ShaderBytecode.Proofs.Glsl.UniformNames

/-!
# Identifiers in a shader

Uniform blocks, their members and samplers have the names of resources, which are arbitrary texts.
All of them go through `identifier`, and the other names are made of letters and numbers.

    validIdentifier_identifier         : whatever the text, it becomes an identifier
    validIdentifier_of_mem_identifiers : so all names of resources in a shader are identifiers
    wellNamed_shader                   : only comments hold a text that a container brings along

The names of resources come from a compiler for another language, and could be anything in a file
that was made by hand. That identifiers may clash is no matter here.
-/

namespace ShaderBytecode
namespace Glsl

/-! ### Valid identifiers

What an identifier is follows the language for which it is made. The prefix that is kept for the
language itself is the only word that is treated. -/

/-- A character of an identifier. -/
def isIdentifierChar (c : Char) : Bool := c.isAlphanum || c == '_'

/-- An identifier that a program may declare. -/
structure ValidIdentifier (id : String) : Prop where
  chars : ∀ c ∈ id.toList, isIdentifierChar c = true
  first : ∃ c ∈ id.toList.head?, c.isDigit = false
  /-- The language keeps this prefix to itself. -/
  notReserved : id.toList.take 3 ≠ ['g', 'l', '_']

theorem isPlain_of_isIdentifierChar {c : Char} (h : isIdentifierChar c = true) :
    isPlain c = true := by
  rw [isPlain_iff]
  refine ⟨?_, ?_, ?_, ?_⟩ <;>
    · rintro rfl
      exact absurd h (by decide)

theorem ValidIdentifier.plain {id : String} (h : ValidIdentifier id) : PlainText id :=
  fun c hc => isPlain_of_isIdentifierChar (h.chars c hc)

/-- **Every text becomes an identifier.** -/
theorem validIdentifier_identifier (name : String) : ValidIdentifier (identifier name) := by
  unfold identifier
  dsimp only
  generalize hbody : (name.toList.map fun c => if c.isAlphanum || c == '_' then c else '_') = body
  have hchars : ∀ c ∈ body, isIdentifierChar c = true := by
    rw [← hbody]
    refine List.forall_mem_map.2 fun c _ => ?_
    split
    · next hc => exact hc
    · rfl
  -- an underscore in front keeps all characters identifier characters
  have hunderscore : ∀ c ∈ '_' :: body, isIdentifierChar c = true :=
    List.forall_mem_cons.2 ⟨rfl, hchars⟩
  cases body with
  | nil => exact ⟨hunderscore, ⟨'_', rfl, rfl⟩, by decide⟩
  | cons c cs =>
    dsimp only
    split
    · -- an underscore is neither a digit nor what the reserved names begin with
      have hfirst : '_' ∈ (String.ofList ('_' :: c :: cs)).toList.head? := by
        rw [String.toList_ofList]
        rfl
      refine ⟨by rwa [String.toList_ofList], ⟨'_', hfirst, rfl⟩, ?_⟩
      rw [String.toList_ofList, List.take_succ_cons]
      intro heq
      exact absurd (List.cons.inj heq).1 (by decide)
    · next hfree =>
      rw [Bool.or_eq_true, not_or, Bool.not_eq_true, beq_iff_eq] at hfree
      obtain ⟨hdigit, hreserved⟩ := hfree
      have hfirst : c ∈ (String.ofList (c :: cs)).toList.head? := by
        rw [String.toList_ofList]
        rfl
      exact ⟨by rwa [String.toList_ofList], ⟨c, hfirst, hdigit⟩, by rwa [String.toList_ofList]⟩

/-! ### Names of rows

Plain rows have names of their own, which are made from the number of a slot. -/

/-- Texts that begin with two letters and go on with a number are identifiers. -/
theorem validIdentifier_numbered (slot : UInt32) {suffix : String}
    (hsuffix : suffix.toList.all isIdentifierChar = true) :
    ValidIdentifier ((Name.bufferRows slot).text ++ suffix) := by
  -- digits are characters of identifiers
  have hnumber : ∀ c ∈ (toString slot.toNat).toList, isIdentifierChar c = true := by
    rw [Nat.toString_eq_ofList_toDigits, String.toList_ofList]
    intro c hc
    have hdigit : c.isDigit = true := Nat.isDigit_of_mem_toDigits (by decide) (by decide) hc
    rw [isIdentifierChar, Char.isAlphanum, hdigit, Bool.or_true, Bool.true_or]
  have htext : ((Name.bufferRows slot).text ++ suffix).toList
      = 'c' :: 'b' :: ((toString slot.toNat).toList ++ suffix.toList) := by
    simp [Name.text, toString_text]
  refine ⟨?_, ⟨'c', by rw [htext]; rfl, rfl⟩, ?_⟩
  · rw [htext]
    exact List.forall_mem_cons.2 ⟨rfl, List.forall_mem_cons.2 ⟨rfl,
      List.forall_mem_append.2 ⟨hnumber, List.all_eq_true.1 hsuffix⟩⟩⟩
  · -- the name begins with `c`, so it is none of the reserved ones
    rw [htext, List.take_succ_cons]
    intro heq
    exact absurd (List.cons.inj heq).1 (by decide)

theorem validIdentifier_bufferRows (slot : UInt32) :
    ValidIdentifier (Name.bufferRows slot).text := by
  have h : ValidIdentifier ((Name.bufferRows slot).text ++ "") :=
    validIdentifier_numbered slot (by decide)
  rwa [String.append_empty] at h

/-! ### All identifiers of a shader

Every name in a shader that is not a fixed one belongs to a block, a member or a sampler. For what
is declared this is seen in the declaration, and for what is only named in the body it follows from
the names of the body being grounded. -/

/-- The identifier of a uniform variable. -/
def Name.uniform? : Name → Option String
  | member id | sampler id => some id
  | _ => none

/-- All identifiers in a shader that have been made from the names of resources, and those of plain
rows. -/
def Shader.identifiers (s : Shader) : List String :=
  s.blocks.filterMap UniformBlockDeclaration.name? ++ s.memberNames ++ s.samplerNames
    ++ s.names.filterMap Name.uniform?

section

variable {options : Options} {c : Container}

theorem validIdentifier_of_mem_blocks {d : UniformBlockDeclaration}
    (hd : d ∈ (shader options c).blocks) :
    (∀ id ∈ d.name?, ValidIdentifier id) ∧ ∀ id ∈ d.memberNames, ValidIdentifier id := by
  obtain hd | hd := List.mem_append.1 hd
  · -- the block of a buffer
    obtain ⟨b, -, hb⟩ := List.mem_filterMap.1 hd
    unfold bufferBlock? at hb
    split at hb
    · split at hb
      · cases hb
        exact ⟨fun _ hid => (nomatch hid), fun _ hid => (nomatch hid)⟩
      · cases hb
        refine ⟨fun id hid => ?_, fun id hid => ?_⟩
        · obtain rfl := Option.some.inj hid
          exact validIdentifier_identifier b.name
        · obtain ⟨m, hm, rfl⟩ := List.mem_map.1 hid
          obtain ⟨v, -, rfl⟩ := List.mem_map.1 hm
          rw [name_blockMember]
          exact validIdentifier_identifier v.name
    · cases hb
  · -- the block of plain rows
    obtain ⟨raw, -, rfl⟩ := List.mem_map.1 hd
    refine ⟨fun id hid => ?_, fun id hid => ?_⟩
    · obtain rfl := Option.some.inj hid
      exact validIdentifier_numbered raw.1 (by decide)
    · obtain rfl := List.mem_singleton.1 hid
      exact validIdentifier_bufferRows raw.1

theorem validIdentifier_of_name? {t : Texture} {id : String} (h : id ∈ t.declaration.name?) :
    ValidIdentifier id := by
  unfold Texture.declaration at h
  split at h
  · obtain rfl := Option.some.inj h
    exact validIdentifier_identifier t.name
  · cases h

/-- **All names of resources in a shader are identifiers**, where they are declared and where the
body names them. -/
theorem validIdentifier_of_mem_identifiers :
    ∀ id ∈ (shader options c).identifiers, ValidIdentifier id := by
  intro id hid
  simp only [Shader.identifiers, Shader.memberNames, Shader.samplerNames, List.mem_append,
    List.mem_filterMap, List.mem_flatMap] at hid
  obtain ((⟨d, hd, hid⟩ | ⟨d, hd, hid⟩) | ⟨d, hd, hid⟩) | ⟨n, hn, hid⟩ := hid
  · exact (validIdentifier_of_mem_blocks hd).1 id hid
  · exact (validIdentifier_of_mem_blocks hd).2 id hid
  · obtain ⟨t, -, rfl⟩ := List.mem_map.1 hd
    exact validIdentifier_of_name? hid
  · -- what the body names stands for a variable or a texture
    have hgrounded := grounded_names c options n hn
    cases n with
    | member _ =>
      obtain ⟨_, _, _, v, _, rfl⟩ := hgrounded
      obtain rfl := Option.some.inj hid
      exact validIdentifier_identifier v.name
    | sampler _ =>
      obtain ⟨t, _, rfl⟩ := hgrounded
      obtain rfl := Option.some.inj hid
      exact validIdentifier_identifier t.name
    | _ => cases hid

/-! ### Well-named shaders

A text that is put into a comment may still hold anything. That the rest is plain is checked for
each kind of declaration. -/

theorem plain_profile (p : Program) : PlainText p.profile := by
  have hletters : PlainText p.stage.letters := by
    cases p.stage <;> decide
  unfold Program.profile
  simp only [plain_append, toString_text, and_assoc]
  exact ⟨hletters, by decide, plain_natural _, by decide, plain_natural _⟩

theorem plain_samplerSuffix {d : Dimension} {suffix : String} (h : d.samplerSuffix? = some suffix) :
    PlainText suffix := by
  cases d <;> cases h <;> decide

theorem plain_qualifier (i : Interpolation) : PlainText i.qualifier := by
  cases i <;> decide

theorem plain_inputQualifier (stage : Option Stage) (program : Option Program)
    (e : SignatureElement) : PlainText (inputQualifier stage program e) := by
  unfold inputQualifier
  dsimp only
  split
  · decide
  split
  · decide
  split
  · exact plain_qualifier _
  · decide

theorem plain_outputQualifier (stage : Option Stage) (e : SignatureElement) :
    PlainText (outputQualifier stage e) := by
  unfold outputQualifier
  split <;> decide

theorem wellNamed_registerDeclarations {file : RegisterFile} {direction : String}
    {elements : List SignatureElement} {linkage : SignatureElement → Linkage} {used : List Nat}
    (hdirection : PlainText direction)
    (hlinkage : ∀ e qualifier way, linkage e = .location qualifier way →
      PlainText qualifier ∧ PlainText way) :
    ∀ d ∈ registerDeclarations file direction elements linkage used, d.WellNamed := by
  intro d hd qualifier way hd'
  obtain hd | hd := List.mem_append.1 hd
  · obtain ⟨e, -, rfl⟩ := List.mem_map.1 hd
    exact hlinkage e qualifier way hd'
  · obtain ⟨n, -, rfl⟩ := List.mem_map.1 hd
    cases hd'
    exact ⟨by decide, hdirection⟩

/-- **Only comments hold a text that a container brings along.** -/
theorem wellNamed_shader : (shader options c).WellNamed where
  profile p hp := by
    obtain ⟨program, -, rfl⟩ := Option.map_eq_some_iff.1 hp
    exact plain_profile program
  blocks d hd := by
    obtain ⟨hname, hmembers⟩ := validIdentifier_of_mem_blocks hd
    cases d with
    | block binding name members =>
      exact ⟨(hname name rfl).plain, fun m hm => (hmembers _ (List.mem_map_of_mem hm)).plain⟩
    | empty _ => exact trivial
  samplers d hd := by
    obtain ⟨t, -, rfl⟩ := List.mem_map.1 hd
    unfold Texture.declaration
    split
    · next hsuffix => exact ⟨plain_samplerSuffix hsuffix, (validIdentifier_identifier _).plain⟩
    · exact trivial
  inputs := by
    refine wellNamed_registerDeclarations (by decide) fun e qualifier way h => ?_
    split at h
    · cases h
    · cases h
      exact ⟨plain_inputQualifier _ _ _, by decide⟩
  outputs := by
    refine wellNamed_registerDeclarations (by decide) fun e qualifier way h => ?_
    split at h
    · cases h
    · cases h
      exact ⟨plain_outputQualifier _ _, by decide⟩

end

end Glsl
end ShaderBytecode
