import Mathlib.Data.List.Basic
import Mathlib.Data.List.Forall2
import Mathlib.Data.List.TakeWhile
import ShaderBytecode.Text.Line

/-!
# What the lines of a text are

A text is cut at its line ends, and each line is trimmed. Cutting and trimming are functions with a
relation beside each of them, which says what a result has to look like and not how to find it:

    Cut text lines       the lines, written one behind the other with their ends, are the text
    TrimsTo line core    the line is the core with blanks around it

Together they say which names a text lists, one on each line:

    lists_iff : Lists text names ↔ names = trimmed text

A line may end with a carriage return in front of the line feed. Cutting leaves it with the line and
trimming takes it off, since it is blank.
-/

namespace ShaderBytecode
namespace Line

/-! ### Cutting

A line ends with a line feed, alone or behind a carriage return. The relation allows both readings
of a carriage return in front of a line feed: part of the line or part of its end. -/

/-- What may end a line. -/
def ends : List (List Char) := [['\n'], ['\r', '\n']]

/-- The lines of a text. Only the last one may stand without a line end, and then it is not
empty. -/
inductive Cut : List Char → List (List Char) → Prop where
  | nil : Cut [] []
  | unclosed {line} : line ≠ [] → '\n' ∉ line → Cut line [line]
  | closed {line ending text lines} : '\n' ∉ line → ending ∈ ends → Cut text lines →
      Cut (line ++ ending ++ text) (line :: lines)

section

variable {line text : List Char}

theorem split_append_newline (h : '\n' ∉ line) (text : List Char) :
    split (line ++ '\n' :: text) = line :: split text := by
  induction line with
  | nil => rw [List.nil_append, split, if_pos rfl]
  | cons c line ih =>
    rw [List.mem_cons, not_or] at h
    rw [List.cons_append, split, if_neg (Ne.symm h.1), ih h.2]

theorem split_of_notMem (hne : line ≠ []) (h : '\n' ∉ line) : split line = [line] := by
  induction line with
  | nil => exact absurd rfl hne
  | cons c line ih =>
    rw [List.mem_cons, not_or] at h
    rw [split, if_neg (Ne.symm h.1)]
    cases line with
    | nil => rfl
    | cons d line => rw [ih (List.cons_ne_nil d line) h.2]

/-- A text is cut into the lines that it is split into. -/
theorem cut_split (text : List Char) : Cut text (split text) := by
  induction text with
  | nil => exact .nil
  | cons c text ih =>
    rw [split]
    by_cases hc : c = '\n'
    · rw [if_pos hc, hc]
      exact @Cut.closed [] ['\n'] text _ List.not_mem_nil List.mem_cons_self ih
    · -- the character goes in front of the first line, if there is one
      rw [if_neg hc]
      generalize split text = lines at ih ⊢
      cases ih with
      | nil => exact .unclosed (List.cons_ne_nil c []) (by simpa using Ne.symm hc)
      | unclosed _ hline => exact .unclosed (List.cons_ne_nil c _) (by simp [Ne.symm hc, hline])
      | @closed line _ _ _ hline hending hrest =>
        have hfirst : '\n' ∉ c :: line := by simp [Ne.symm hc, hline]
        exact .closed hfirst hending hrest

end

/-! ### Trimming

Trimming drops blanks from both ends, so the core begins and ends with something else, if it is not
empty. The core is the only such part of a line. -/

/-- `core` is what is left of a line without the blanks at its ends. -/
structure TrimsTo (line core : List Char) : Prop where
  surrounded : ∃ before behind, line = before ++ core ++ behind ∧
    (∀ c ∈ before, isBlank c) ∧ ∀ c ∈ behind, isBlank c
  head : ∀ c ∈ core.head?, ¬ isBlank c
  last : ∀ c ∈ core.getLast?, ¬ isBlank c

section

variable {line core : List Char} {c : Char}

theorem not_isBlank_of_mem_head?_dropWhile (h : c ∈ (line.dropWhile isBlank).head?) :
    ¬ isBlank c := by
  have hhead := List.head?_dropWhile_not isBlank line
  rw [Option.mem_def.1 h] at hhead
  simpa using hhead

theorem trimsTo_trim (line : List Char) : TrimsTo line (trim line) := by
  let rest := line.dropWhile isBlank
  let behind := (rest.reverse.takeWhile isBlank).reverse
  -- what the second pass drops, seen from the front
  have hrest : rest = trim line ++ behind :=
    calc rest = rest.reverse.reverse := (List.reverse_reverse rest).symm
      _ = (rest.reverse.takeWhile isBlank ++ rest.reverse.dropWhile isBlank).reverse := by
        rw [List.takeWhile_append_dropWhile]
      _ = trim line ++ behind := List.reverse_append
  constructor
  · refine ⟨line.takeWhile isBlank, behind, ?_, ?_, ?_⟩
    · rw [List.append_assoc, ← hrest]
      exact List.takeWhile_append_dropWhile.symm
    · exact fun c hc => List.mem_takeWhile_imp hc
    · exact fun c hc => List.mem_takeWhile_imp (List.mem_reverse.1 hc)
  · intro c hc
    have hfirst : c ∈ rest.head? := by
      rw [hrest, List.head?_append, Option.mem_def.1 hc]
      rfl
    exact not_isBlank_of_mem_head?_dropWhile hfirst
  · intro c hc
    rw [trim, List.getLast?_reverse] at hc
    exact not_isBlank_of_mem_head?_dropWhile hc

/-- Blanks in front of a core that begins with something else are all that is dropped. -/
theorem dropWhile_append_of_head {before core : List Char} (hbefore : ∀ c ∈ before, isBlank c)
    (hhead : ∀ c ∈ core.head?, ¬ isBlank c) : (before ++ core).dropWhile isBlank = core := by
  rw [List.dropWhile_append_of_pos hbefore]
  cases core with
  | nil => rfl
  | cons c core => exact List.dropWhile_cons_of_neg (hhead c rfl)

theorem TrimsTo.trim_eq (h : TrimsTo line core) : trim line = core := by
  obtain ⟨before, behind, rfl, hbefore, hbehind⟩ := h.surrounded
  have hbehind' : ∀ c ∈ behind.reverse, isBlank c := fun c hc => hbehind c (List.mem_reverse.1 hc)
  have hlast : ∀ c ∈ core.reverse.head?, ¬ isBlank c := by
    rw [List.head?_reverse]
    exact h.last
  cases core with
  | nil =>
    -- a line of blanks is dropped from its front already
    have hall : ∀ c ∈ before ++ [] ++ behind, isBlank c := by
      simpa using fun c hc => hc.elim (hbefore c) (hbehind c)
    rw [trim, List.dropWhile_eq_nil_iff.2 hall]
    rfl
  | cons c core =>
    have hfront : (before ++ (c :: core ++ behind)).dropWhile isBlank = c :: core ++ behind :=
      dropWhile_append_of_head hbefore h.head
    rw [trim, List.append_assoc, hfront, List.reverse_append,
      dropWhile_append_of_head hbehind' hlast, List.reverse_reverse]

theorem trim_eq_iff : trim line = core ↔ TrimsTo line core :=
  ⟨fun h => h ▸ trimsTo_trim line, TrimsTo.trim_eq⟩

/-- A blank at the end of a line does not count. -/
theorem trim_concat_of_isBlank (hc : isBlank c) (line : List Char) :
    trim (line ++ [c]) = trim line := by
  have h := trimsTo_trim line
  obtain ⟨before, behind, hline, hbefore, hbehind⟩ := h.surrounded
  refine trim_eq_iff.2 ⟨⟨before, behind ++ [c], ?_, hbefore, fun d hd => ?_⟩, h.head, h.last⟩
  · rw [← List.append_assoc, ← hline]
  · rcases List.mem_append.1 hd with hd | hd
    · exact hbehind d hd
    · rwa [List.mem_singleton.1 hd]

end

/-! ### Listing names

Names are compared after trimming, so the two readings of a carriage return come to the same. -/

/-- However a text is cut into lines, they are trimmed to the same. -/
theorem Cut.map_trim {text : List Char} {lines : List (List Char)} (h : Cut text lines) :
    (split text).map trim = lines.map trim := by
  induction h with
  | nil => rfl
  | unclosed hne hline => rw [split_of_notMem hne hline]
  | @closed line ending text lines hline hending _ ih =>
    simp only [ends, List.mem_cons, List.not_mem_nil, or_false] at hending
    rcases hending with rfl | rfl
    · rw [List.append_assoc, List.singleton_append, split_append_newline hline, List.map_cons, ih,
        List.map_cons]
    · -- the carriage return stays with the line
      have hreturn : '\n' ∉ line ++ ['\r'] := by simpa using hline
      have htext : line ++ ['\r', '\n'] ++ text = line ++ ['\r'] ++ '\n' :: text := by simp
      rw [htext, split_append_newline hreturn, List.map_cons, ih, List.map_cons,
        trim_concat_of_isBlank (by decide)]

/-- The names that a text lists, one on each line with blanks around it. -/
def Lists (text : String) (names : List String) : Prop :=
  ∃ lines, Cut text.toList lines ∧ List.Forall₂ TrimsTo lines (names.map String.toList)

theorem forall₂_trimsTo_iff {lines cores : List (List Char)} :
    List.Forall₂ TrimsTo lines cores ↔ lines.map trim = cores := by
  rw [← List.forall₂_eq_eq_eq, List.forall₂_map_left_iff]
  simp only [trim_eq_iff]

/-- **The trimmed lines of a text** are the names that it lists. -/
theorem lists_iff {text : String} {names : List String} :
    Lists text names ↔ names = trimmed text := by
  -- texts are lists of characters, and the function that makes them one is injective
  have htrimmed : (trimmed text).map String.toList = (split text.toList).map trim := by
    simp [trimmed, Function.comp_def]
  have hinjective : Function.Injective (List.map String.toList) :=
    List.map_injective_iff.2 fun _ _ => String.toList_inj.1
  constructor
  · rintro ⟨lines, hcut, hcores⟩
    apply hinjective
    rw [htrimmed, hcut.map_trim, forall₂_trimsTo_iff.1 hcores]
  · rintro rfl
    exact ⟨split text.toList, cut_split _, forall₂_trimsTo_iff.2 htrimmed.symm⟩

end Line
end ShaderBytecode
