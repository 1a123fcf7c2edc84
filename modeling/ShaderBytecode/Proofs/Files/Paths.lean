import Mathlib.Data.List.Infix
import Mathlib.Data.String.Basic
import ShaderBytecode.Files.Tree

/-!
# Where paths lead

A path is followed step by step from a place. `FileTree.follow_append` cuts it in two, and behind
the cut are, for the paths below a folder, names only: each of them leads one place further down.

    follow_names_congr : two trees that agree on the places that names lead through
                         lead them to the same place, or refuse them for the same reason
    Keeps.follow       : what only adds entries leaves every path where it leads
-/

namespace ShaderBytecode

namespace Path

/-! ### Steps of a text

The steps of a path are what separators leave of its text. The function of the library looks for the
separator from an offset in the bytes of the text, so the induction is on what is still to be looked
at, with the part in front of it in view. -/

/-- If no separator is left behind the characters `l`, the text is not split any more. -/
theorem splitOnAux_of_notMem (l : List Char) {m : List Char} (h : '/' ∉ m) :
    String.splitOnAux (.ofList (l ++ m)) "/" 0 ⟨String.utf8Len l⟩ 0 [] = [.ofList (l ++ m)] := by
  induction m generalizing l with
  | nil =>
    -- what is left over is the whole text
    have hwhole := String.extract_of_valid [] l []
    rw [List.append_nil, List.nil_append, String.utf8Len_nil, Nat.zero_add] at hwhole
    rw [String.splitOnAux, if_pos ((String.atEnd_of_valid l []).2 rfl), List.append_nil]
    exact congrArg (fun text => [text]) hwhole
  | cons c m ih =>
    rw [List.mem_cons, not_or] at h
    have hmore := (String.atEnd_of_valid l (c :: m)).not.2 (List.cons_ne_nil c m)
    -- the next character is no separator, so the search goes on behind it
    have hother : ¬(c == '/') = true := fun hc => h.1 (beq_iff_eq.1 hc).symm
    have hrest := ih (l ++ [c]) h.2
    rw [List.append_assoc, List.singleton_append, String.utf8Len_append, String.utf8Len_cons,
      String.utf8Len_nil, Nat.zero_add] at hrest
    rw [String.splitOnAux, if_neg hmore, String.get_of_valid l (c :: m)]
    change (if (c == '/') = true then _ else _) = _
    rw [if_neg hother]
    change String.splitOnAux _ "/" 0 (String.Pos.Raw.next _ ⟨String.utf8Len l⟩) 0 [] = _
    rw [String.next_of_valid]
    exact hrest

/-- A text without a separator is a single step. -/
theorem ofText_of_notMem {text : String} (h : '/' ∉ text.toList) : ofText text = [text] := by
  have hwhole := splitOnAux_of_notMem [] h
  rw [List.nil_append, String.ofList_toList] at hwhole
  rw [ofText, String.splitOn, if_neg (by decide)]
  exact hwhole

/-! ### Names

A name is a step that goes down: it is neither empty nor a dot, which stay, nor two dots, which go
up. -/

theorem IsName.ne_empty {step : String} (h : IsName step) : step ≠ "" := by
  rintro rfl
  cases h.1

theorem below_of_ne_nil {folder : Path} {names : List String} (h : names ≠ []) :
    folder.below names = folder.unclosed ++ names := by
  cases names with
  | nil => exact absurd rfl h
  | cons _ _ => rfl

/-- A path to an entry below a folder is not closed by a separator. -/
theorem getLast?_below (folder : Path) {names : List String} (hnames : ∀ n ∈ names, IsName n)
    (hne : names ≠ []) : (folder.below names).getLast? ≠ some "" := by
  obtain ⟨around, last, rfl⟩ := List.eq_nil_or_concat' names |>.resolve_left hne
  have hlast : IsName last := hnames last (by simp)
  rw [below_of_ne_nil hne, ← List.append_assoc, List.getLast?_concat]
  exact fun h => hlast.ne_empty (Option.some.inj h)

theorem eq_append_of_getLast? {path : Path} (h : path.getLast? = some "") :
    path = path.dropLast ++ [""] := by
  obtain ⟨before, rfl⟩ := List.getLast?_eq_some_iff.1 h
  rw [List.dropLast_concat]

end Path

namespace FileTree

/-- What stands at a place is a folder. -/
def isFolder (t : FileTree) (place : Place) : Bool := t.get? place == some .folder

/-- What stands at a place is a file. -/
def isFile (t : FileTree) (place : Place) : Bool :=
  match t.get? place with
  | some (.file _) => true
  | _ => false

theorem isFolder_iff {t : FileTree} {place : Place} :
    t.isFolder place ↔ t.get? place = some .folder := by
  simp [isFolder]

theorem isFile_iff {t : FileTree} {place : Place} :
    t.isFile place ↔ ∃ content, t.get? place = some (.file content) := by
  unfold isFile
  split <;> simp_all

variable {t t' : FileTree} {start place : Place}

/-! ### Steps of a path

A path can stay, go up and go down, and it is only followed through folders. The lemmas on paths in
general are inductions over its steps; each step is taken in the same way for any rest. -/

theorem follow_cons (t : FileTree) (start : Place) (step : String) (path : Path) :
    t.follow start (step :: path) =
      match t.get? start with
      | none => .error .notFound
      | some (.file _) => .error .notAFolder
      | some .folder =>
        if Path.staysAt step then t.follow start path
        else if step = ".." then t.follow start.dropLast path
        else if Path.isLongStep step then .error .nameTooLong
        else t.follow (start ++ [step]) path :=
  rfl

theorem follow_append (path rest : Path) :
    t.follow start (path ++ rest) = t.follow start path >>= (t.follow · rest) := by
  induction path generalizing start with
  | nil => rfl
  | cons step path ih =>
    rw [List.cons_append, follow_cons, follow_cons]
    -- only a folder is left by a step
    rcases t.get? start with _ | _ | _
    · rfl
    · rfl
    · dsimp only
      -- staying, going up, and going down by a name that is short enough
      split
      · exact ih
      · split
        · exact ih
        · split
          · rfl
          · exact ih

/-- A path that leads on starts from a folder. -/
theorem isFolder_of_follow_cons {step : String} {path : Path}
    (h : t.follow start (step :: path) = .ok place) : t.get? start = some .folder := by
  rw [follow_cons] at h
  rcases hget : t.get? start with _ | _ | _
  · rw [hget] at h; cases h
  · rw [hget] at h; cases h
  · rfl

/-- A path leads to the same place without the separator at its end. -/
theorem follow_unclosed {path : Path} (h : t.follow start path = .ok place) :
    t.follow start path.unclosed = .ok place := by
  unfold Path.unclosed
  split
  · next hlast =>
    rw [Path.eq_append_of_getLast? hlast, follow_append] at h
    cases hfirst : t.follow start path.dropLast with
    | error e =>
      rw [hfirst] at h
      cases h
    | ok p =>
      rw [hfirst] at h
      change t.follow p [""] = .ok place at h
      have hfolder := isFolder_of_follow_cons h
      rw [follow_cons, hfolder] at h
      exact h
  · exact h

/-- A path from a folder that is there leads to a folder or stays in front of one. -/
theorem isFolder_of_follow {path : Path} (h : t.follow start path = .ok place)
    (hplace : t.get? place = some .folder) : t.get? start = some .folder := by
  cases path with
  | nil =>
    cases h
    exact hplace
  | cons step path => exact isFolder_of_follow_cons h

theorem follow_name {step : String} {path : Path} (hname : Path.IsName step)
    (hstart : t.get? start = some .folder) :
    t.follow start (step :: path) =
      if Path.isLongStep step then .error .nameTooLong else t.follow (start ++ [step]) path := by
  rw [follow_cons, hstart]
  dsimp only
  rw [hname.1, if_neg Bool.false_ne_true, if_neg hname.2]

/-! ### Names on the way down

Below a folder paths consist of names. They lead down only, so where they lead is known without the
tree; the tree decides whether they may be followed. -/

/-- Two trees that agree on the places that names lead through follow them alike. -/
theorem follow_names_congr {names : List String} (hnames : ∀ n ∈ names, Path.IsName n)
    (hagree : ∀ p, p <+: names → t'.get? (start ++ p) = t.get? (start ++ p)) :
    t'.follow start names = t.follow start names := by
  induction names generalizing start with
  | nil => rfl
  | cons n names ih =>
    -- the empty list of names is in front of all others
    have hstart : t'.get? start = t.get? start := by
      simpa using hagree [] (List.nil_prefix)
    have hrest : t'.follow (start ++ [n]) names = t.follow (start ++ [n]) names := by
      refine ih (fun m hm => hnames m (List.mem_cons_of_mem _ hm)) fun p hp => ?_
      have := hagree (n :: p) (List.cons_prefix_cons.2 ⟨rfl, hp⟩)
      simpa using this
    have hname := hnames n List.mem_cons_self
    rw [follow_cons, follow_cons, hstart, hname.1]
    rw [if_neg Bool.false_ne_true, if_neg hname.2, if_neg Bool.false_ne_true, if_neg hname.2, hrest]

/-- Names lead as many places down as there are. -/
theorem eq_append_of_follow_names {names : List String} (hnames : ∀ n ∈ names, Path.IsName n)
    (h : t.follow start names = .ok place) :
    place = start ++ names ∧ ∀ n ∈ names, Path.isLongStep n = false := by
  induction names generalizing start with
  | nil =>
    cases h
    simp
  | cons n names ih =>
    rw [follow_name (hnames n List.mem_cons_self) (isFolder_of_follow_cons h)] at h
    split at h
    · cases h
    · next hshort =>
      obtain ⟨rfl, hrest⟩ := ih (fun m hm => hnames m (List.mem_cons_of_mem _ hm)) h
      refine ⟨by simp, fun m hm => ?_⟩
      -- the first name is short, or it would have been refused
      rcases List.mem_cons.1 hm with rfl | hm
      · exact Bool.eq_false_iff.2 hshort
      · exact hrest m hm

/-- Names lead through folders to the place below them. -/
theorem follow_names {names : List String} (hnames : ∀ n ∈ names, Path.IsName n)
    (hshort : ∀ n ∈ names, Path.isLongStep n = false)
    (hfolders : ∀ p, p <+: names.dropLast → t.get? (start ++ p) = some .folder) :
    t.follow start names = .ok (start ++ names) := by
  induction names generalizing start with
  | nil => rw [List.append_nil]; rfl
  | cons n names ih =>
    have hstart : t.get? start = some .folder := by
      simpa using hfolders [] List.nil_prefix
    rw [follow_name (hnames n List.mem_cons_self) hstart, hshort n List.mem_cons_self,
      if_neg Bool.false_ne_true]
    cases names with
    | nil => rfl
    | cons m names =>
      rw [ih (fun k hk => hnames k (List.mem_cons_of_mem _ hk))
        (fun k hk => hshort k (List.mem_cons_of_mem _ hk))]
      · simp
      · intro p hp
        have := hfolders (n :: p) (by simpa using hp)
        simpa using this

/-! ### Entries that are added

What adds entries may put a file where nothing stood and put files over files. Paths go through
folders, which stay, so they lead where they led. -/

/-- A tree that has all folders of another one. -/
def Keeps (t t' : FileTree) : Prop :=
  ∀ place, t.get? place = some .folder → t'.get? place = some .folder

theorem Keeps.follow (h : t.Keeps t') {path : Path} (hpath : t.follow start path = .ok place) :
    t'.follow start path = .ok place := by
  induction path generalizing start with
  | nil => exact hpath
  | cons step path ih =>
    have hstart := isFolder_of_follow_cons hpath
    rw [follow_cons, hstart] at hpath
    rw [follow_cons, h _ hstart]
    dsimp only at hpath ⊢
    -- staying, going up, and going down by a name that is short enough
    split at hpath
    · next hstays => rw [if_pos hstays]; exact ih hpath
    · next hleaves =>
      rw [if_neg hleaves]
      split at hpath
      · next hup => rw [if_pos hup]; exact ih hpath
      · next hdown =>
        rw [if_neg hdown]
        split at hpath
        · cases hpath
        · next hshort => rw [if_neg hshort]; exact ih hpath

theorem follow_of_locate {path : Path} (h : t.locate path = .ok place) :
    t.follow [] path = .ok place ∧ path.isLong = false ∧ path ≠ [] ∧ path ≠ [""] := by
  unfold locate at h
  split at h
  · cases h
  · next hsome =>
    split at h
    · cases h
    · next hshort =>
      rw [not_or] at hsome
      exact ⟨h, Bool.eq_false_iff.2 hshort, hsome.1, hsome.2⟩

/-- A path that can be located stays where it is. -/
theorem Keeps.locate (h : t.Keeps t') {path : Path} (hpath : t.locate path = .ok place) :
    t'.locate path = .ok place := by
  obtain ⟨hfollow, hshort, hne, hne'⟩ := follow_of_locate hpath
  rw [FileTree.locate, if_neg (not_or.2 ⟨hne, hne'⟩), hshort, if_neg Bool.false_ne_true]
  exact h.follow hfollow

/-! ### Reading files

A file is read at the place that its path leads to, and by no other entry. -/

theorem read_eq_ok_iff {path : Path} {content : Bytes} :
    t.read path = .ok content ↔
      ∃ place, t.locate path = .ok place ∧ t.get? place = some (.file content) := by
  unfold read
  cases t.locate path with
  | error fault => exact ⟨nofun, nofun⟩
  | ok place =>
    simp only [Bind.bind, Except.bind, Except.ok.injEq, exists_eq_left']
    rcases t.get? place with _ | _ | found <;> simp

/-- Two trees that agree on where a path leads and on what stands there are read alike. -/
theorem read_congr {path : Path} (hlocate : t'.locate path = t.locate path)
    (hget : ∀ place, t.locate path = .ok place → t'.get? place = t.get? place) :
    t'.read path = t.read path := by
  unfold read
  rw [hlocate]
  cases h : t.locate path with
  | error fault => rfl
  | ok place =>
    simp only [Bind.bind, Except.bind]
    rw [hget place h]

end FileTree
end ShaderBytecode
