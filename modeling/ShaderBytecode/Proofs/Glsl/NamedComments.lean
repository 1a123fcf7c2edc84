import ShaderBytecode.Proofs.Glsl.Comments

/-!
# Names in the comments of a shader

Three kinds of comments hold a name that the container brings along: the semantic of an input or
output register, and what stands in the place of a block without members or of a sampler that there
cannot be. All the other text of a shader is made of plain characters, or stays in its comment.

    codeOf_text   : without the names, the shader is the same to a compiler, if the comments stay
                    on their lines
    lineEnds_text : without the names, the shader has as many lines less as there are line ends in
                    the comments with a name

A text that is printed with such a name is compared with the text without it. Between the two stands
`Erased`, line by line.
-/

namespace ShaderBytecode

namespace Glsl

theorem toString_text (text : String) : toString text = text := rfl

/-- The slashes that a comment begins with, apart from the blank behind them. -/
theorem slashes_append (text : String) : "// " ++ text = "" ++ ("//" ++ (" " ++ text)) :=
  String.toList_inj.1 (by simp)

/-! ### Plain numbers

Numbers are printed with digits, letters and signs, none of which can begin a comment or end a line.
-/

theorem isPlain_digitChar (n : Nat) : isPlain n.digitChar = true := by
  rw [isPlain_iff]
  refine ⟨?_, ?_, ?_, ?_⟩ <;> exact Nat.digitChar_ne _ (by decide)

theorem isPlain_of_mem_toDigits {b n : Nat} (hb : 1 < b) {c : Char} (h : c ∈ Nat.toDigits b n) :
    isPlain c = true := by
  induction n using Nat.strongRecOn with
  -- the last digit, and before it those of the number without it
  | ind n ih =>
    rw [Nat.toDigits_eq_if hb] at h
    split at h
    · obtain rfl := List.mem_singleton.1 h
      exact isPlain_digitChar n
    · next hn =>
      obtain h | h := List.mem_append.1 h
      · exact ih (n / b) (Nat.div_lt_self (by omega) hb) h
      · obtain rfl := List.mem_singleton.1 h
        exact isPlain_digitChar (n % b)

theorem plain_natural (n : Nat) : PlainText (toString n) := by
  rw [Nat.toString_eq_ofList_toDigits, plain_ofList]
  exact fun c hc => isPlain_of_mem_toDigits (by decide) hc

theorem plain_hexLiteral (n : Nat) : PlainText (Hex.literal n) := by
  refine plain_append.2 ⟨by decide, plain_ofList.2 fun c hc => ?_⟩
  exact isPlain_of_mem_toDigits (by decide) hc

theorem plain_integer (n : Int) : PlainText (toString n) := by
  cases n with
  | ofNat n => exact plain_natural n
  | negSucc n => exact plain_append.2 ⟨by decide, plain_natural (n + 1)⟩

theorem plain_zeros (n : Nat) : PlainText (String.ofList (List.replicate n '0')) := by
  rw [plain_ofList]
  intro c hc
  rw [List.eq_of_mem_replicate hc]
  rfl

theorem PlainText.take {text : String} (h : PlainText text) (n : Nat) :
    PlainText (text.take n).toString := by
  intro c hc
  rw [String.Slice.toString_eq, String.toList_copy_take] at hc
  exact h c (List.mem_of_mem_take hc)

theorem PlainText.drop {text : String} (h : PlainText text) (n : Nat) :
    PlainText (text.drop n).toString := by
  intro c hc
  rw [String.Slice.toString_eq, String.toList_copy_drop] at hc
  exact h c (List.mem_of_mem_drop hc)

end Glsl

namespace DecimalStyle

open Glsl

theorem plain_positional {digits : String} (h : PlainText digits) (exponent : Int) :
    PlainText (positional digits exponent) := by
  unfold positional
  dsimp only
  split
  · exact plain_append.2 ⟨plain_append.2 ⟨h, plain_zeros _⟩, by decide⟩
  split
  · exact plain_append.2 ⟨plain_append.2 ⟨h.take _, by decide⟩, h.drop _⟩
  · exact plain_append.2 ⟨plain_append.2 ⟨by decide, plain_zeros _⟩, h⟩

theorem plain_scientific (style : DecimalStyle) {digits : String} (h : PlainText digits)
    (power : Int) : PlainText (style.scientific digits power) := by
  unfold scientific
  have hmantissa : PlainText (if digits.length ≤ 1 then digits
      else (digits.take 1).toString ++ "." ++ (digits.drop 1).toString) := by
    split
    · exact h
    · exact plain_append.2 ⟨plain_append.2 ⟨h.take _, by decide⟩, h.drop _⟩
  have hsign : PlainText (if style.signedExponent ∧ 0 ≤ power then "+" else "") := by
    split <;> decide
  exact plain_append.2 ⟨plain_append.2 ⟨plain_append.2 ⟨hmantissa, by decide⟩, hsign⟩,
    plain_integer power⟩

theorem plain_number (style : DecimalStyle) (f : BinaryFormat) (pattern : Nat) :
    PlainText (style.number f pattern) := by
  unfold number
  have hsign : PlainText (if f.isNegative pattern then "-" else "") := by
    split <;> decide
  dsimp only
  split
  · exact plain_append.2 ⟨hsign, by decide⟩
  · refine plain_append.2 ⟨hsign, ?_⟩
    unfold positive
    dsimp only
    split
    · exact plain_positional (plain_natural _) _
    · exact plain_scientific style (plain_natural _) _

end DecimalStyle

namespace Glsl

/-! ### Plain types, names and rows

Types and registers are printed with words of the language. Rows are printed as expressions. -/

theorem plain_typeText (t : ValueType) : PlainText t.text := by
  obtain ⟨scalar, lanes⟩ := t
  unfold ValueType.text
  cases scalar <;>
    · dsimp only
      split
      · decide
      · exact plain_append.2 ⟨by decide, plain_natural _⟩

theorem plain_letters (file : RegisterFile) : PlainText file.letters := by
  cases file <;> decide

theorem plain_textOfMoreArguments {es : List Expr} (h : ∀ e ∈ es, PlainText e.text) :
    PlainText (Expr.textOfMoreArguments es) := by
  induction es with
  | nil => decide
  | cons e es ih =>
    obtain ⟨he, hes⟩ := List.forall_mem_cons.1 h
    exact plain_append.2 ⟨plain_append.2 ⟨by decide, he⟩, ih hes⟩

theorem plain_textOfArguments {es : List Expr} (h : ∀ e ∈ es, PlainText e.text) :
    PlainText (Expr.textOfArguments es) := by
  cases es with
  | nil => decide
  | cons e es =>
    obtain ⟨he, hes⟩ := List.forall_mem_cons.1 h
    exact plain_append.2 ⟨he, plain_textOfMoreArguments hes⟩

theorem plain_floatLiteral (bits : UInt32) : PlainText (Expr.floatLiteral bits).text := by
  unfold Expr.floatLiteral
  split
  · exact DecimalStyle.plain_number _ _ _
  · have hpattern : PlainText (Expr.pattern bits).text :=
      plain_append.2 ⟨plain_hexLiteral _, by decide⟩
    refine plain_append.2 ⟨plain_append.2 ⟨by decide, ?_⟩, by decide⟩
    exact plain_textOfArguments (by simpa using hpattern)

theorem plain_rowExpr (r : Row) : PlainText (rowExpr r).text := by
  refine plain_append.2 ⟨plain_append.2 ⟨plain_append.2 ⟨plain_typeText _, by decide⟩, ?_⟩,
    by decide⟩
  exact plain_textOfArguments (List.forall_mem_map.2 fun bits _ => plain_floatLiteral bits)

theorem plain_intercalate {separator : String} (hseparator : PlainText separator)
    {texts : List String} (h : ∀ text ∈ texts, PlainText text) :
    PlainText (separator.intercalate texts) := by
  induction texts with
  | nil =>
    rw [String.intercalate_nil]
    decide
  | cons text texts ih =>
    obtain ⟨htext, htexts⟩ := List.forall_mem_cons.1 h
    cases texts with
    | nil => rwa [String.intercalate_singleton]
    | cons next texts =>
      rw [String.intercalate_cons_cons]
      exact plain_append.2 ⟨plain_append.2 ⟨htext, hseparator⟩, ih htexts⟩

theorem plain_immediateBufferLine (rows : List Row) : PlainText (immediateBufferLine rows) := by
  have hvalues : PlainText (", ".intercalate (rows.map fun r => (rowExpr r).text)) :=
    plain_intercalate (by decide) (List.forall_mem_map.2 fun r _ => plain_rowExpr r)
  have hcount : PlainText (toString rows.length) := plain_natural rows.length
  unfold immediateBufferLine
  simp only [plain_append, toString_text, and_assoc]
  exact ⟨by decide, by decide, by decide, by decide, by decide, hcount, by decide, by decide,
    by decide, hcount, by decide, hvalues, by decide⟩

/-! ### Blocks

Each kind of declaration has its comments, which are listed, and the declaration without the names
in them. -/

namespace UniformBlockDeclaration

/-- The names of a block and of its members are plain. -/
def WellNamed : UniformBlockDeclaration → Prop
  | block _ name members => PlainText name ∧ ∀ m ∈ members, PlainText m.name
  | empty _ => True

/-- The comments of a block that hold a name. -/
def nameComments : UniformBlockDeclaration → List String
  | block _ _ _ => []
  | empty bufferName => [s!" {bufferName} has no variables"]

/-- A block without a name in a comment. -/
def withoutName : UniformBlockDeclaration → UniformBlockDeclaration
  | block binding name members => block binding name members
  | empty _ => empty ""

end UniformBlockDeclaration

/-- A line may tell an offset. -/
theorem erased_offset {code : String} (h : PlainText code) (offset : Option UInt32) :
    let line := code ++ match offset with
      | some o => s!" // offset {o.toNat}"
      | none => ""
    Erased [line] [line] [] := by
  cases offset with
  | none =>
    dsimp only
    rw [String.append_empty]
    exact .code h .nil
  | some o =>
    -- the offset is a comment of its own
    have hline : code ++ s!" // offset {o.toNat}"
        = code ++ " " ++ "//" ++ s!" offset {o.toNat}" :=
      String.toList_inj.1 (by simp [toString_text])
    have hnumber : PlainText s!" offset {o.toNat}" :=
      plain_append.2 ⟨by decide, plain_natural _⟩
    dsimp only
    rw [hline]
    exact .kept (plain_append.2 ⟨h, by decide⟩) hnumber.inline .nil

theorem erased_member {m : BlockMember} (h : PlainText m.name) :
    Erased [indent ++ m.text] [indent ++ m.text] [] := by
  unfold BlockMember.text
  dsimp only
  rw [← String.append_assoc]
  refine erased_offset ?_ m.offset
  simp only [plain_append, toString_text, and_assoc]
  refine ⟨by decide, plain_typeText _, by decide, h, ?_, by decide⟩
  split -- an array or not
  · exact plain_append.2 ⟨plain_append.2 ⟨by decide, plain_natural _⟩, by decide⟩
  · decide

theorem UniformBlockDeclaration.erased {d : UniformBlockDeclaration} (h : d.WellNamed) :
    Erased d.lines d.withoutName.lines d.nameComments := by
  cases d with
  | block binding name members =>
    obtain ⟨hname, hmembers⟩ := h
    have hmembers' : Erased (members.map fun m => indent ++ m.text)
        (members.map fun m => indent ++ m.text) [] :=
      .refl (List.forall_mem_map.2 fun m hm => erased_member (hmembers m hm))
    have htail : Erased ["\x7d;", ""] ["\x7d;", ""] [] := .code (by decide) (.code (by decide) .nil)
    refine (Erased.append (.code ?_ .nil) hmembers').append htail
    simp only [plain_append, toString_text, and_assoc]
    refine ⟨?_, by decide, hname, by decide⟩
    split -- with a binding or without
    · exact plain_append.2 ⟨plain_append.2 ⟨by decide, plain_natural _⟩, by decide⟩
    · decide
  | empty bufferName =>
    have hline (name : String) :
        s!"// {name} has no variables" = "" ++ "//" ++ s!" {name} has no variables" := by
      simp only [toString_text, String.append_assoc, slashes_append]
    simp only [lines, withoutName, nameComments, hline]
    exact .replaced (by decide) (by decide) .nil

/-! ### Samplers

A sampler has a name in its code, or one in a comment, but never both. -/

namespace SamplerDeclaration

/-- The name of a sampler and the end of its type are plain. -/
def WellNamed : SamplerDeclaration → Prop
  | sampler _ suffix name _ => PlainText suffix ∧ PlainText name
  | notSampled _ _ => True

/-- The comments of a sampler that hold a name. -/
def nameComments : SamplerDeclaration → List String
  | sampler _ _ _ _ => []
  | notSampled textureName dimension =>
    [s!" {textureName}: {dimension.name} is not a sampled texture"]

/-- A sampler without a name in a comment. -/
def withoutName : SamplerDeclaration → SamplerDeclaration
  | sampler returnType suffix name count => sampler returnType suffix name count
  | notSampled _ dimension => notSampled "" dimension

end SamplerDeclaration

theorem SamplerDeclaration.erased {d : SamplerDeclaration} (h : d.WellNamed) :
    Erased [d.line] [d.withoutName.line] d.nameComments := by
  cases d with
  | sampler returnType suffix name count =>
    obtain ⟨hsuffix, hname⟩ := h
    have hletter : PlainText returnType.samplerLetter := by
      cases returnType <;> decide
    have hlength : PlainText (if 1 < count then s!"[{count}]" else "") := by
      split
      · exact plain_append.2 ⟨plain_append.2 ⟨by decide, plain_natural _⟩, by decide⟩
      · decide
    refine .code ?_ .nil
    unfold line
    simp only [plain_append, toString_text, and_assoc]
    exact ⟨by decide, hletter, by decide, hsuffix, by decide, hname, hlength, by decide⟩
  | notSampled textureName dimension =>
    -- the line is a comment from its first character on
    have hline (name : String) : s!"// {name}: {dimension.name} is not a sampled texture"
        = "" ++ "//" ++ s!" {name}: {dimension.name} is not a sampled texture" := by
      simp only [toString_text, String.append_assoc, slashes_append]
    have hdimension : PlainText dimension.name := by
      cases dimension <;> decide
    have hplain {name : String} (hname : PlainText name) :
        PlainText s!" {name}: {dimension.name} is not a sampled texture" := by
      simp only [plain_append, toString_text, and_assoc]
      exact ⟨by decide, hname, by decide, hdimension, by decide⟩
    unfold line withoutName nameComments
    dsimp only
    rw [hline, hline]
    have hempty : PlainText "" := by decide
    exact .replaced (by decide) (hplain hempty).inline .nil

/-! ### Registers

A register is named by its number. The semantic stands behind it on the same line. -/

namespace RegisterDeclaration

/-- The words in front of a register are plain. -/
def WellNamed (d : RegisterDeclaration) : Prop :=
  ∀ qualifier direction, d.linkage = .location qualifier direction →
    PlainText qualifier ∧ PlainText direction

/-- The comments of a register that hold a name. -/
def nameComments (d : RegisterDeclaration) : List String := d.semantic.toList.map (" " ++ ·)

/-- A register without a name in a comment. -/
def withoutName (d : RegisterDeclaration) : RegisterDeclaration :=
  { d with semantic := d.semantic.map fun _ => "" }

end RegisterDeclaration

/-- A line may tell a semantic. -/
theorem erased_semantic {code : String} (h : PlainText code) (semantic : Option String) :
    let line (semantic : Option String) := code ++ match semantic with
      | some s => s!" // {s}"
      | none => ""
    Erased [line semantic] [line (semantic.map fun _ => "")]
      (semantic.toList.map (" " ++ ·)) := by
  cases semantic with
  | none =>
    dsimp only [Option.map_none]
    rw [String.append_empty]
    exact .code h .nil
  | some s =>
    have hline (s : String) : code ++ s!" // {s}" = code ++ " " ++ "//" ++ (" " ++ s) :=
      String.toList_inj.1 (by simp [toString_text])
    dsimp only [Option.map_some, Option.toList_some, List.map_cons, List.map_nil]
    rw [hline, hline]
    exact .replaced (plain_append.2 ⟨h, by decide⟩) (by decide) .nil

theorem RegisterDeclaration.erased {d : RegisterDeclaration} (h : d.WellNamed) :
    Erased [d.line] [d.withoutName.line] d.nameComments := by
  have hname : PlainText (Name.register d.file d.number).text :=
    plain_append.2 ⟨plain_letters d.file, plain_natural d.number⟩
  refine erased_semantic ?_ d.semantic
  simp only [plain_append, toString_text, and_assoc]
  refine ⟨?_, plain_typeText _, by decide, hname, by decide⟩
  split
  · decide
  · next qualifier direction hlocation =>
    obtain ⟨hqualifier, hdirection⟩ := h _ _ hlocation
    simp only [plain_append, and_assoc]
    exact ⟨by decide, plain_natural _, by decide, hqualifier, hdirection, by decide⟩

/-! ### Shaders

The declarations of a shader are groups of lines with a blank line behind each. An empty group
leaves no blank line, and leaving out names leaves no group empty. -/

theorem Erased.group {lines lines' comments : List String} (h : Erased lines lines' comments) :
    Erased (groupLines lines) (groupLines lines') comments := by
  have hempty : lines'.isEmpty = lines.isEmpty := by
    cases h <;> rfl
  unfold groupLines
  rw [hempty]
  split
  · next hnil =>
    obtain rfl := List.isEmpty_iff.1 hnil
    cases h
    exact .nil
  · have hblank : Erased [""] [""] [] := .code (by decide) .nil
    have happend := h.append hblank
    rwa [List.append_nil] at happend

namespace Shader

/-- The names and other words in a shader are plain where they are not in a comment. -/
structure WellNamed (s : Shader) : Prop where
  profile : ∀ p ∈ s.profile, PlainText p
  blocks : ∀ d ∈ s.blocks, d.WellNamed
  samplers : ∀ d ∈ s.samplers, d.WellNamed
  inputs : ∀ d ∈ s.inputs, d.WellNamed
  outputs : ∀ d ∈ s.outputs, d.WellNamed

/-- The comments of a shader that hold a name. -/
def nameComments (s : Shader) : List String :=
  s.blocks.flatMap UniformBlockDeclaration.nameComments
    ++ s.samplers.flatMap SamplerDeclaration.nameComments
    ++ s.inputs.flatMap RegisterDeclaration.nameComments
    ++ s.outputs.flatMap RegisterDeclaration.nameComments

/-- A shader without names in its comments. -/
def withoutNames (s : Shader) : Shader :=
  { s with
    blocks := s.blocks.map UniformBlockDeclaration.withoutName
    samplers := s.samplers.map SamplerDeclaration.withoutName
    inputs := s.inputs.map RegisterDeclaration.withoutName
    outputs := s.outputs.map RegisterDeclaration.withoutName }

variable {s : Shader}

theorem erased_headLines (h : s.WellNamed) : Erased s.headLines s.headLines [] := by
  refine .refl fun line hline => ?_
  simp only [headLines, List.mem_append, List.mem_cons, List.not_mem_nil, or_false,
    Option.mem_toList, Option.map_eq_some_iff] at hline
  obtain (rfl | ⟨p, hp, rfl⟩) | rfl := hline
  · exact .code (plain_append.2 ⟨by decide, plain_natural _⟩) .nil
  · have hprofile : PlainText (" " ++ p) := plain_append.2 ⟨by decide, h.profile p hp⟩
    rw [slashes_append, ← String.append_assoc]
    exact .kept (by decide) hprofile.inline .nil
  · exact .code (by decide) .nil

theorem erased_globalLines (h : s.WellNamed) :
    Erased s.globalLines s.withoutNames.globalLines s.nameComments := by
  -- the lines of each group and the comments in them, group by group
  have hblocks : Erased (s.blocks.flatMap UniformBlockDeclaration.lines)
      (s.blocks.flatMap fun d => d.withoutName.lines)
      (s.blocks.flatMap UniformBlockDeclaration.nameComments) :=
    .flatMap fun d hd => UniformBlockDeclaration.erased (h.blocks d hd)
  have hsamplers : Erased (s.samplers.map SamplerDeclaration.line)
      (s.samplers.map fun d => d.withoutName.line)
      (s.samplers.flatMap SamplerDeclaration.nameComments) :=
    .map fun d hd => SamplerDeclaration.erased (h.samplers d hd)
  have himmediate : Erased (s.immediateBuffer.map immediateBufferLine).toList
      (s.immediateBuffer.map immediateBufferLine).toList [] := by
    refine .refl fun line hline => ?_
    obtain ⟨rows, -, rfl⟩ := Option.map_eq_some_iff.1 (Option.mem_toList.1 hline)
    exact .code (plain_immediateBufferLine rows) .nil
  have hregisters (ds : List RegisterDeclaration) (hds : ∀ d ∈ ds, d.WellNamed) :
      Erased (ds.map RegisterDeclaration.line) (ds.map fun d => d.withoutName.line)
        (ds.flatMap RegisterDeclaration.nameComments) :=
    .map fun d hd => RegisterDeclaration.erased (hds d hd)
  have hall := (((hblocks.append hsamplers.group).append himmediate.group).append
    (hregisters s.inputs h.inputs).group).append (hregisters s.outputs h.outputs).group
  simp only [globalLines, withoutNames, List.flatMap_map, List.map_map]
  rw [List.append_nil] at hall
  exact hall

/-- All lines in front of `main`. -/
theorem erased_frontLines (h : s.WellNamed) :
    Erased (s.headLines ++ s.globalLines)
      (s.withoutNames.headLines ++ s.withoutNames.globalLines) s.nameComments :=
  (erased_headLines h).append (erased_globalLines h)

theorem toList_text (s : Shader) :
    s.text.toList = charsOf (s.headLines ++ s.globalLines) ++ charsOf s.mainLines := by
  rw [← charsOf_append, text, lines, String.toList_join, List.flatMap_map]
  simp only [String.toList_append]
  rfl

/-- **Names in comments are not seen**, as long as the comments stay on their lines. -/
theorem codeOf_text (h : s.WellNamed) (hinline : ∀ c ∈ s.nameComments, Inline c) :
    codeOf s.text = codeOf s.withoutNames.text := by
  have hmain : s.withoutNames.mainLines = s.mainLines := rfl
  rw [codeOf, codeOf, toList_text, toList_text, hmain]
  exact (erased_frontLines h).codeFrom_eq hinline _

/-- **Each line end in a name is one line more.** -/
theorem lineEnds_text (h : s.WellNamed) :
    lineEnds s.text = lineEnds s.withoutNames.text + breaks s.nameComments := by
  have hmain : s.withoutNames.mainLines = s.mainLines := rfl
  have hbreaks := (erased_frontLines h).breaks_eq
  have hlength := (erased_frontLines h).length_eq
  simp only [lineEnds, toList_text, List.countP_append, countP_charsOf, hmain]
  omega

end Shader
end Glsl
end ShaderBytecode
