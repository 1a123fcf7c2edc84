import ShaderBytecode.Glsl.Shader

/-!
# Comments in a shader

A comment begins with two slashes and takes the rest of its line, or it stands between two marks. A
line that ends in a backslash goes on in the next one. The comments of a shader may hold names that
the container brings along:

    code part of the line // a name
    code part of the line // another name

    Erased.codeFrom_eq : such lines are the same to a compiler if the comments stay on them
    Erased.breaks_eq   : whatever the comments hold, each line end in them is one line more

What a compiler sees is the text without its comments. The definition follows the language: lines
are joined before comments are found, so that a backslash can carry a comment over to the next line.
-/

namespace ShaderBytecode
namespace Glsl

/-! ### Outside of comments

Characters are removed one region after the other. A comment between marks counts as a blank, and a
comment up to the end of the line leaves that end. -/

/-- A character ends a line. -/
def isLineEnd (c : Char) : Bool := c == '\n' || c == '\r'

/-- The number of line ends in a text. -/
def lineEnds (text : String) : Nat := text.toList.countP isLineEnd

/-- What a character is part of. -/
inductive Region where
  | code
  /-- A comment up to the end of the line. -/
  | line
  /-- A comment up to its closing mark. -/
  | block

/-- The characters outside of comments. -/
def uncommented : Region → List Char → List Char
  | .code, '/' :: '/' :: cs => uncommented .line cs
  | .code, '/' :: '*' :: cs => uncommented .block cs
  | .code, c :: cs => c :: uncommented .code cs
  | .line, c :: cs => if isLineEnd c then c :: uncommented .code cs else uncommented .line cs
  | .block, '*' :: '/' :: cs => ' ' :: uncommented .code cs
  | .block, _ :: cs => uncommented .block cs
  | _, [] => []

/-- The characters of a text whose lines have been joined where they go on. -/
def joined : List Char → List Char
  | '\\' :: '\r' :: '\n' :: cs => joined cs
  | '\\' :: c :: cs => if isLineEnd c then joined cs else '\\' :: joined (c :: cs)
  | c :: cs => c :: joined cs
  | [] => []

/-- What a compiler sees of some characters. -/
def codeFrom (cs : List Char) : List Char := uncommented .code (joined cs)

/-- What a compiler sees of a text. -/
def codeOf (text : String) : List Char := codeFrom text.toList

/-! ### Plain text and comments on one line

The text that is printed is plain, and the names are anything. A name in a comment is harmless if it
neither ends the line nor ends in a backslash, which would join the next line to the comment. -/

/-- A character that can neither end a line nor begin a comment nor join two lines. -/
def isPlain (c : Char) : Bool := c != '/' && c != '\\' && !isLineEnd c

/-- A text of plain characters. -/
def PlainText (text : String) : Prop := ∀ c ∈ text.toList, isPlain c = true

-- Going through the characters of the text, and not through all characters there are.
instance (text : String) : Decidable (PlainText text) :=
  List.decidableBAll (fun c => isPlain c = true) text.toList

/-- A comment that does not leave its line. -/
def Inline (comment : String) : Prop :=
  (∀ c ∈ comment.toList, isLineEnd c = false) ∧ comment.toList.getLast? ≠ some '\\'

instance (comment : String) : Decidable (Inline comment) :=
  have : Decidable (∀ c ∈ comment.toList, isLineEnd c = false) :=
    List.decidableBAll (fun c => isLineEnd c = false) comment.toList
  inferInstanceAs (Decidable ((∀ c ∈ comment.toList, isLineEnd c = false) ∧
    comment.toList.getLast? ≠ some '\\'))

/-- Two plain texts make a plain text. -/
theorem plain_append {s t : String} : PlainText (s ++ t) ↔ PlainText s ∧ PlainText t := by
  simp only [PlainText, String.toList_append, List.forall_mem_append]

/-- A text of plain characters is plain. -/
theorem plain_ofList {cs : List Char} :
    PlainText (String.ofList cs) ↔ ∀ c ∈ cs, isPlain c = true := by
  rw [PlainText, String.toList_ofList]

/-- The characters that are not plain. -/
theorem isPlain_iff {c : Char} :
    isPlain c = true ↔ c ≠ '/' ∧ c ≠ '\\' ∧ c ≠ '\n' ∧ c ≠ '\r' := by
  simp [isPlain, isLineEnd, and_assoc]

/-- Plain text would not leave its line in a comment. -/
theorem PlainText.inline {text : String} (h : PlainText text) : Inline text := by
  refine ⟨fun c hc => ?_, fun hlast => ?_⟩
  · have hplain := h c hc
    simp only [isPlain, Bool.and_eq_true, Bool.not_eq_true'] at hplain
    exact hplain.2
  · have hplain := h '\\' (List.mem_of_getLast? hlast)
    exact absurd hplain (by decide)

/-- Line ends add up. -/
theorem lineEnds_append (s t : String) : lineEnds (s ++ t) = lineEnds s + lineEnds t := by
  rw [lineEnds, String.toList_append, List.countP_append, lineEnds, lineEnds]

/-- A comment that stays on its line has no line end. -/
theorem Inline.lineEnds_eq_zero {comment : String} (h : Inline comment) : lineEnds comment = 0 :=
  List.countP_eq_zero.2 fun c hc => by rw [h.1 c hc]; exact Bool.false_ne_true

/-! ### One line

The two passes of the compiler, each followed along a line: joining lines leaves it as it is, and
removing comments leaves what stands in front of the slashes. -/

/-- Plain text begins no comment. -/
theorem uncommented_plain {cs : List Char} (h : ∀ c ∈ cs, isPlain c = true) (rest : List Char) :
    uncommented .code (cs ++ rest) = cs ++ uncommented .code rest := by
  induction cs with
  | nil => rfl
  | cons c cs ih =>
    obtain ⟨hc, hcs⟩ := List.forall_mem_cons.1 h
    have hslash : c ≠ '/' := (isPlain_iff.1 hc).1
    rw [List.cons_append, uncommented, ih hcs]
    · rfl
    · exact fun _ heq => absurd heq hslash
    · exact fun _ heq => absurd heq hslash

/-- Only a backslash can join lines. -/
theorem joined_of_ne {c : Char} (h : c ≠ '\\') (rest : List Char) :
    joined (c :: rest) = c :: joined rest := by
  rw [joined]
  · exact fun _ heq => absurd heq h
  · exact fun _ _ heq => absurd heq h

/-- Plain text joins no lines. -/
theorem joined_plain {cs : List Char} (h : ∀ c ∈ cs, isPlain c = true) (rest : List Char) :
    joined (cs ++ rest) = cs ++ joined rest := by
  induction cs with
  | nil => rfl
  | cons c cs ih =>
    obtain ⟨hc, hcs⟩ := List.forall_mem_cons.1 h
    rw [List.cons_append, joined_of_ne (isPlain_iff.1 hc).2.1, ih hcs]
    rfl

/-- Plain text is code, whatever stands behind it. -/
theorem codeFrom_plain {text : String} (h : PlainText text) (rest : List Char) :
    codeFrom (text.toList ++ rest) = text.toList ++ codeFrom rest := by
  rw [codeFrom, joined_plain h, uncommented_plain h]
  rfl

/-- A comment ends at the end of its line. -/
theorem uncommented_line {cs : List Char} (h : ∀ c ∈ cs, isLineEnd c = false) (rest : List Char) :
    uncommented .line (cs ++ '\n' :: rest) = '\n' :: uncommented .code rest := by
  induction cs with
  | nil => rfl
  | cons c cs ih =>
    obtain ⟨hc, hcs⟩ := List.forall_mem_cons.1 h
    rw [List.cons_append, uncommented, hc]
    exact ih hcs

/-- Nothing in a comment on one line joins it to the next. -/
theorem joined_line {cs : List Char} (h : ∀ c ∈ cs, isLineEnd c = false)
    (hlast : cs.getLast? ≠ some '\\') (rest : List Char) :
    joined (cs ++ '\n' :: rest) = cs ++ '\n' :: joined rest := by
  induction cs with
  | nil => rfl
  | cons c cs ih =>
    obtain ⟨hc, hcs⟩ := List.forall_mem_cons.1 h
    by_cases hback : c = '\\'
    · subst hback
      cases cs with
      | nil => exact absurd rfl hlast
      | cons d ds =>
        -- the backslash does not join lines, since the next character does not end one
        obtain ⟨hd, -⟩ := List.forall_mem_cons.1 hcs
        have hreturn : d ≠ '\r' := by
          rintro rfl
          cases hd
        have hrest := ih hcs (by rwa [List.getLast?_cons_cons] at hlast)
        simp only [List.cons_append] at hrest ⊢
        rw [joined, hd, hrest]
        · rfl
        · exact fun _ heq => absurd heq hreturn
    · -- any other character is kept, and the last one is the same as before
      have hlast' : cs.getLast? ≠ some '\\' := by
        intro hcs'
        cases cs with
        | nil => cases hcs'
        | cons d ds => exact hlast (by rw [List.getLast?_cons_cons, hcs'])
      rw [List.cons_append, joined_of_ne hback, ih hcs hlast']
      rfl

/-- A slash joins no lines. -/
theorem joined_slash (rest : List Char) : joined ('/' :: rest) = '/' :: joined rest :=
  joined_of_ne (by decide) rest

/-- A comment that does not leave its line is not seen. -/
theorem codeFrom_comment {comment : String} (h : Inline comment) (rest : List Char) :
    codeFrom ("//".toList ++ (comment.toList ++ '\n' :: rest)) = '\n' :: codeFrom rest := by
  show uncommented .code (joined ('/' :: '/' :: (comment.toList ++ '\n' :: rest))) = _
  rw [joined_slash, joined_slash, joined_line h.1 h.2, uncommented, uncommented_line h.1]
  rfl

/-- A line of code. -/
theorem codeFrom_codeLine {code : String} (h : PlainText code) (rest : List Char) :
    codeFrom (code.toList ++ '\n' :: rest) = code.toList ++ '\n' :: codeFrom rest :=
  codeFrom_plain h ('\n' :: rest)

/-- A line of code with a comment. -/
theorem codeFrom_commentedLine {code comment : String} (hcode : PlainText code)
    (hcomment : Inline comment) (rest : List Char) :
    codeFrom ((code ++ "//" ++ comment).toList ++ '\n' :: rest)
      = code.toList ++ '\n' :: codeFrom rest := by
  rw [String.toList_append, String.toList_append, List.append_assoc, List.append_assoc,
    codeFrom_plain hcode, codeFrom_comment hcomment]

/-! ### Lines

A text is a list of lines, and a line may hold line ends of its own, in its comment. So the number
of lines that a compiler sees need not be that of the list. -/

/-- Some lines as characters, each with its end. -/
def charsOf (lines : List String) : List Char := lines.flatMap fun l => l.toList ++ ['\n']

/-- The characters of the first line, its end, and those of the others. -/
theorem charsOf_cons (line : String) (lines : List String) :
    charsOf (line :: lines) = line.toList ++ '\n' :: charsOf lines := by
  rw [charsOf, List.flatMap_cons, List.append_assoc]
  rfl

/-- The characters of two lists of lines. -/
theorem charsOf_append (xs ys : List String) : charsOf (xs ++ ys) = charsOf xs ++ charsOf ys :=
  List.flatMap_append

/-- The number of line ends within some texts. -/
def breaks : List String → Nat
  | [] => 0
  | text :: texts => lineEnds text + breaks texts

/-- Comments that stay on their lines break no line. -/
theorem breaks_eq_zero {texts : List String} (h : ∀ text ∈ texts, Inline text) :
    breaks texts = 0 := by
  induction texts with
  | nil => rfl
  | cons text texts ih =>
    obtain ⟨htext, htexts⟩ := List.forall_mem_cons.1 h
    rw [breaks, htext.lineEnds_eq_zero, ih htexts]

/-- The line ends of a text are those within its lines, and one for each line. -/
theorem countP_charsOf (lines : List String) :
    (charsOf lines).countP isLineEnd = breaks lines + lines.length := by
  induction lines with
  | nil => rfl
  | cons line lines ih =>
    have hend : isLineEnd '\n' = true := rfl
    rw [charsOf_cons, List.countP_append, List.countP_cons_of_pos hend, ih, breaks, lineEnds,
      List.length_cons]
    omega

/-- Lines of code and comments, the same lines with other comments in the place of some, and the
comments that have been replaced. What replaces them does not leave its line. -/
inductive Erased : List String → List String → List String → Prop where
  | nil : Erased [] [] []
  | code {code : String} {lines lines' comments : List String} (hcode : PlainText code)
      (h : Erased lines lines' comments) : Erased (code :: lines) (code :: lines') comments
  /-- A line whose comment stays. -/
  | kept {code comment : String} {lines lines' comments : List String} (hcode : PlainText code)
      (hcomment : Inline comment) (h : Erased lines lines' comments) :
      Erased ((code ++ "//" ++ comment) :: lines) ((code ++ "//" ++ comment) :: lines') comments
  /-- A line whose comment is replaced. -/
  | replaced {code comment comment' : String} {lines lines' comments : List String}
      (hcode : PlainText code) (hcomment : Inline comment') (h : Erased lines lines' comments) :
      Erased ((code ++ "//" ++ comment) :: lines) ((code ++ "//" ++ comment') :: lines')
        (comment :: comments)

namespace Erased

variable {lines lines' comments : List String}

/-- Lines behind lines. -/
theorem append {more more' comments' : List String} (h : Erased lines lines' comments)
    (h' : Erased more more' comments') :
    Erased (lines ++ more) (lines' ++ more') (comments ++ comments') := by
  induction h with
  | nil => exact h'
  | code hcode _ ih => exact .code hcode ih
  | kept hcode hcomment _ ih => exact .kept hcode hcomment ih
  | replaced hcode hcomment _ ih => exact .replaced hcode hcomment ih

/-- The lines of each element of a list. -/
theorem flatMap {l : List α} {f g k : α → List String} (h : ∀ a ∈ l, Erased (f a) (g a) (k a)) :
    Erased (l.flatMap f) (l.flatMap g) (l.flatMap k) := by
  induction l with
  | nil => exact .nil
  | cons a l ih =>
    obtain ⟨ha, hl⟩ := List.forall_mem_cons.1 h
    simp only [List.flatMap_cons]
    exact ha.append (ih hl)

/-- One line for each element of a list. -/
theorem map {l : List α} {f g : α → String} {k : α → List String}
    (h : ∀ a ∈ l, Erased [f a] [g a] (k a)) : Erased (l.map f) (l.map g) (l.flatMap k) := by
  rw [List.map_eq_flatMap, List.map_eq_flatMap]
  exact flatMap h

/-- Lines that all stay as they are. -/
theorem refl (h : ∀ l ∈ lines, Erased [l] [l] []) : Erased lines lines [] := by
  induction lines with
  | nil => exact .nil
  | cons line lines ih =>
    obtain ⟨hline, hlines⟩ := List.forall_mem_cons.1 h
    exact hline.append (ih hlines)

/-- There are as many lines as before. -/
theorem length_eq (h : Erased lines lines' comments) : lines.length = lines'.length := by
  induction h with
  | nil => rfl
  | code _ _ ih | kept _ _ _ ih | replaced _ _ _ ih => exact congrArg (· + 1) ih

/-- **Comments that stay on their lines make no difference.** -/
theorem codeFrom_eq (h : Erased lines lines' comments) (hinline : ∀ c ∈ comments, Inline c)
    (rest : List Char) :
    codeFrom (charsOf lines ++ rest) = codeFrom (charsOf lines' ++ rest) := by
  induction h with
  | nil => rfl
  | code hcode _ ih =>
    simp only [charsOf_cons, List.append_assoc, List.cons_append, codeFrom_codeLine hcode,
      ih hinline]
  | kept hcode hcomment _ ih =>
    simp only [charsOf_cons, List.append_assoc, List.cons_append,
      codeFrom_commentedLine hcode hcomment, ih hinline]
  | replaced hcode hcomment _ ih =>
    obtain ⟨hold, hinline⟩ := List.forall_mem_cons.1 hinline
    simp only [charsOf_cons, List.append_assoc, List.cons_append,
      codeFrom_commentedLine hcode hcomment, codeFrom_commentedLine hcode hold, ih hinline]

/-- **Each line end in a comment that has been replaced is one line more.** -/
theorem breaks_eq (h : Erased lines lines' comments) :
    breaks lines = breaks lines' + breaks comments := by
  induction h with
  | nil => rfl
  | code _ _ ih | kept _ _ _ ih =>
    rw [breaks, breaks, ih, Nat.add_assoc]
  | replaced _ hcomment _ ih =>
    simp only [breaks, lineEnds_append, hcomment.lineEnds_eq_zero, ih]
    omega

end Erased
end Glsl
end ShaderBytecode
