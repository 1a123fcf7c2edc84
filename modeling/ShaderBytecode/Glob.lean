/-!
# File name patterns

A pattern describes the texts that it accepts, without regard to the case of ASCII letters:

    ?        any character
    *        any run of characters
    **       any number of folders, as a whole component of the pattern
    [abc]    one of the characters; [a-z] one of a range; [!abc] any other character

The separator of a path is a character like any other for all but `**`. `Glob.parse` reads a pattern
and names the position of what is wrong with it; `Glob.accepts` tries it on a text.
-/

namespace ShaderBytecode

inductive Glob.Choice where
  | single (c : Char)
  | range (first last : Char)
deriving DecidableEq, Repr

inductive Glob.Piece where
  | literal (c : Char)
  | anyCharacter
  | anyRun
  | anyFolders
  | oneOf (choices : List Glob.Choice)
  | noneOf (choices : List Glob.Choice)
deriving DecidableEq, Repr

structure Glob where
  pieces : List Glob.Piece
deriving DecidableEq, Repr

namespace Glob

/-! ### Patterns -/

inductive Fault where
  /-- Three stars in a row. -/
  | stars
  /-- A `**` with something else beside it in its component. -/
  | folders
  /-- Brackets that do not close or hold nothing. -/
  | brackets
deriving DecidableEq, Repr

def Fault.text : Fault → String
  | stars => "wildcards are either regular `*` or recursive `**`"
  | folders => "recursive wildcards must form a single path component"
  | brackets => "invalid range pattern"

/-- A fault and where it is, counted in characters. -/
structure PatternError where
  fault : Fault
  position : Nat
deriving DecidableEq, Repr

def PatternError.message (e : PatternError) : String :=
  s!"Pattern syntax error near position {e.position}: {e.fault.text}"

def choices : List Char → List Choice
  | first :: '-' :: last :: rest => .range first last :: choices rest
  | c :: rest => .single c :: choices rest
  | [] => []

/-- The characters up to the closing bracket, and those behind it. The first character is never the
closing bracket, so that a bracket can be chosen too. -/
def bracketed? : List Char → Option (List Char × List Char)
  | [] => none
  | first :: more =>
    if ']' ∈ more then
      some (first :: more.takeWhile (· ≠ ']'), (more.dropWhile (· ≠ ']')).drop 1)
    else none

/-- What stands behind brackets is shorter than what stands in front of their end. -/
theorem length_bracketed? {text body rest : List Char} (h : bracketed? text = some (body, rest)) :
    rest.length < text.length := by
  cases text with
  | nil => cases h
  | cons first more =>
    simp only [bracketed?] at h
    split at h
    · cases h
      have := (List.dropWhile_suffix (l := more) (· ≠ ']')).length_le
      simp only [List.length_drop, List.length_cons]
      omega
    · cases h

/-- The pieces of a pattern from `position` on, where `before` stands just in front of them. -/
def piecesFrom (position : Nat) (before : Option Char) (text : List Char) :
    Except PatternError (List Piece) :=
  match text with
  | [] => .ok []
  | '?' :: rest => (.anyCharacter :: ·) <$> piecesFrom (position + 1) (some '?') rest
  | '*' :: '*' :: '*' :: _ => .error ⟨.stars, position + 2⟩
  | '*' :: '*' :: rest =>
    if before.any (· ≠ '/') then .error ⟨.folders, position - 1⟩
    else
      match rest with
      | [] => .ok [.anyFolders]
      | '/' :: rest => (.anyFolders :: ·) <$> piecesFrom (position + 3) (some '/') rest
      | _ => .error ⟨.folders, position + 2⟩
  | '*' :: rest => (.anyRun :: ·) <$> piecesFrom (position + 1) (some '*') rest
  | '[' :: '!' :: inner =>
    match _h : bracketed? inner with
    | some (body, rest) =>
      (.noneOf (choices body) :: ·) <$> piecesFrom (position + body.length + 3) (some ']') rest
    | none => .error ⟨.brackets, position⟩
  | '[' :: inner =>
    match _h : bracketed? inner with
    | some (body, rest) =>
      (.oneOf (choices body) :: ·) <$> piecesFrom (position + body.length + 2) (some ']') rest
    | none => .error ⟨.brackets, position⟩
  | c :: rest => (.literal c :: ·) <$> piecesFrom (position + 1) (some c) rest
termination_by text.length
decreasing_by
  all_goals simp_wf
  all_goals try have := length_bracketed? _h
  all_goals omega

def parse (text : String) : Except PatternError Glob := Glob.mk <$> piecesFrom 0 none text.toList

/-! ### Matching -/

/-- Two characters are the same up to the case of ASCII letters. -/
def sameLetter (a b : Char) : Bool := a.toLower == b.toLower

/-- A choice admits a character. The case of letters counts in a range unless both of its ends are
letters. -/
def Choice.admits (c : Char) : Choice → Bool
  | single s => sameLetter s c
  | range first last =>
    (first ≤ c && c ≤ last)
      || (first.isAlpha && last.isAlpha && first.toLower ≤ c.toLower && c.toLower ≤ last.toLower)

/-- A piece that stands for a single character admits it. -/
def Piece.admits (c : Char) : Piece → Bool
  | literal l => sameLetter l c
  | anyCharacter => true
  | oneOf choices => choices.any (·.admits c)
  | noneOf choices => !choices.any (·.admits c)
  | anyRun | anyFolders => false

/-- What may be left of a text behind a run of characters. -/
def behindRun : List Char → List (List Char)
  | [] => [[]]
  | c :: text => (c :: text) :: behindRun text

/-- What is left of a text behind each of its separators. -/
def behindSeparators : List Char → List (List Char)
  | [] => []
  | c :: text => if c = '/' then text :: behindSeparators text else behindSeparators text

/-- What may be left of a text behind a number of folders: all of it, what stands behind a
separator, or nothing. -/
def behindFolders (text : List Char) : List (List Char) :=
  text :: behindSeparators text ++ [[]]

/-- The pieces stand for the whole text. -/
def matchPieces : List Piece → List Char → Bool
  | [], text => text.isEmpty
  | .anyRun :: pieces, text => (behindRun text).any (matchPieces pieces)
  | .anyFolders :: pieces, text => (behindFolders text).any (matchPieces pieces)
  | _ :: _, [] => false
  | piece :: pieces, c :: text => piece.admits c && matchPieces pieces text

def accepts (g : Glob) (text : String) : Bool := matchPieces g.pieces text.toList

end Glob
end ShaderBytecode
