import ShaderBytecode.Proofs.Files.Paths

/-!
# What an operation adds to a tree

`Overlaid t adds t'` says that `t'` is `t` with some entries over what is there: it describes `t'`
as far as anyone can look at it (`Overlaid.unique`), and two descriptions that do not contradict
each other can be put together (`Overlaid.trans`). Making a folder adds the folders on the way to
it, writing a file adds the file.

Both operations start by following a path to a folder, which is the same for all entries below the
folder. `FileTree.createFolders_below` and `FileTree.write_below` say for these when an operation
fails, and what it adds otherwise.
-/

namespace ShaderBytecode
namespace FileTree

variable {t t' t'' : FileTree} {start place target : Place}

/-! ### Overlays

What is added is a relation between places and entries, and it hides what stands at a place. It is
no list of operations: what was done to get there, and in which order, cannot be told from it. -/

/-- A tree with some entries over those of another one, which are as they were otherwise. -/
structure Overlaid (t : FileTree) (adds : Place → Entry → Prop) (t' : FileTree) : Prop where
  added : ∀ {q e}, adds q e → t'.get? q = some e
  kept : ∀ {q}, (∀ e, ¬ adds q e) → t'.get? q = t.get? q

namespace Overlaid

variable {adds adds' : Place → Entry → Prop}

theorem refl (t : FileTree) : t.Overlaid (fun _ _ => False) t :=
  ⟨nofun, fun _ => rfl⟩

/-- An overlay settles what stands at every place. -/
theorem unique (h : t.Overlaid adds t') (h' : t.Overlaid adds t'') (q : Place) :
    t'.get? q = t''.get? q := by
  by_cases hover : ∃ e, adds q e
  · obtain ⟨e, he⟩ := hover
    rw [h.added he, h'.added he]
  · rw [not_exists] at hover
    rw [h.kept hover, h'.kept hover]

/-- Entries that are there anyhow may be named among those that are added. -/
theorem mono (h : t.Overlaid adds t') (hsub : ∀ q e, adds q e → adds' q e)
    (hthere : ∀ q e, adds' q e → adds q e ∨ t'.get? q = some e) : t.Overlaid adds' t' :=
  ⟨fun he => (hthere _ _ he).elim h.added id, fun he => h.kept fun e ho => he e (hsub _ _ ho)⟩

/-- Two overlays are put together where they do not contradict each other. The second hides the
first, so an agreement is needed only where both have an entry. -/
theorem trans (h : t.Overlaid adds t') (h' : t'.Overlaid adds' t'')
    (hagree : ∀ q e e', adds q e → adds' q e' → e = e') :
    t.Overlaid (fun q e => adds q e ∨ adds' q e) t'' := by
  refine ⟨fun {q e} he => ?_, fun {q} he => ?_⟩
  · by_cases hover : ∃ e', adds' q e'
    · obtain ⟨e', he'⟩ := hover
      rcases he with he | he
      · cases hagree q e e' he he'
        exact h'.added he'
      · exact h'.added he
    · rw [not_exists] at hover
      rcases he with he | he
      · rw [h'.kept hover, h.added he]
      · exact absurd he (hover e)
  · rw [h'.kept fun e ho => he e (.inr ho), h.kept fun e ho => he e (.inl ho)]

/-- Folders stay folders if no file is put over them. -/
theorem keeps (h : t.Overlaid adds t')
    (hfolder : ∀ q e, adds q e → e = .folder ∨ t.get? q ≠ some .folder) : t.Keeps t' := by
  intro q hq
  by_cases hover : ∃ e, adds q e
  · obtain ⟨e, he⟩ := hover
    rcases hfolder q e he with rfl | hne
    · exact h.added he
    · exact absurd hq hne
  · rw [not_exists] at hover
    rw [h.kept hover, hq]

/-- Setting an entry adds the one entry. -/
theorem set {e : Entry} (h : place ≠ []) (hplace : ∀ n ∈ place, Path.IsName n) :
    t.Overlaid (fun q e' => q = place ∧ e' = e) (t.set place e) := by
  refine ⟨?_, fun {q} he => ?_⟩
  · rintro q _ ⟨rfl, rfl⟩
    rw [get?_set t hplace, if_neg h, if_pos rfl]
  · rw [get?_set t hplace]
    split
    · next hq => rw [hq]; rfl
    · rw [if_neg fun hq => he e ⟨hq, rfl⟩]

end Overlaid

/-- There are only names on the way to what is there. -/
theorem isName_of_get? {e : Entry} (h : t.get? place = some e) : ∀ n ∈ place, Path.IsName n := by
  unfold get? at h
  split at h
  · next hroot =>
    rw [hroot]
    nofun
  · obtain ⟨before, after, hentries, -⟩ := List.lookup_eq_some_iff.1 h
    refine t.isName place ?_
    rw [hentries, List.map_append, List.map_cons]
    exact List.mem_append_right _ List.mem_cons_self

/-- Setting an entry leaves what stands at a place, or puts the entry there. -/
theorem get?_set_cases (t : FileTree) (place q : Place) (e : Entry) :
    (t.set place e).get? q = t.get? q ∨ q = place ∧ (t.set place e).get? q = some e := by
  by_cases hplace : ∀ n ∈ place, Path.IsName n
  · rw [get?_set t hplace]
    by_cases hroot : q = []
    · rw [if_pos hroot, hroot]
      exact .inl rfl
    · rw [if_neg hroot]
      split
      · next hq => exact .inr ⟨hq, rfl⟩
      · exact .inl rfl
  · rw [set, dif_neg hplace]
    exact .inl rfl

theorem isFile_set_folder {q : Place} (h : t.isFile q = false) :
    (t.set place .folder).isFile q = false := by
  unfold isFile at h ⊢
  rcases get?_set_cases t place q .folder with hsame | ⟨-, hfolder⟩
  · rwa [hsame]
  · rw [hfolder]

/-- A file that is put where no folder is leaves all folders. -/
theorem isFolder_set_file {content : Bytes} (h : t.isFolder place = false) (q : Place) :
    (t.set place (.file content)).isFolder q = t.isFolder q := by
  rcases get?_set_cases t place q (.file content) with hsame | ⟨rfl, hfile⟩
  · rw [isFolder, hsame, isFolder]
  · rw [isFolder, hfile, h]
    rfl

/-! ### Making folders

A folder is made step by step: a step that names a folder that is there is taken, one that names
nothing makes a folder and takes it, and one that names a file stops. What has been made by then
stays, so it is shown first that a file on the way is found whatever is made in front of it. -/

theorem isName_concat {n : String} (hstart : ∀ m ∈ start, Path.IsName m) (hn : Path.IsName n) :
    ∀ m ∈ start ++ [n], Path.IsName m :=
  List.forall_mem_append.2 ⟨hstart, List.forall_mem_singleton.2 hn⟩

/-- Whatever stands in a tree stays there when folders are made. -/
theorem get?_of_createFrom {path : Path} (h : t.createFrom start path = .ok t') {q : Place}
    {e : Entry} (hq : t.get? q = some e) : t'.get? q = some e := by
  induction path generalizing t start with
  | nil =>
    cases h
    exact hq
  | cons step path ih =>
    unfold createFrom at h
    split at h
    · exact ih h hq
    · split at h
      · exact ih h hq
      · split at h
        · cases h
        · dsimp only at h
          split at h
          · next hnone =>
            refine ih h ?_
            -- only the place of the new folder is changed, where nothing stood
            rcases get?_set_cases t (start ++ [step]) q .folder with hsame | ⟨hplace, -⟩
            · rw [hsame, hq]
            · rw [hplace, hnone] at hq
              cases hq
          · exact ih h hq
          · cases h

theorem get?_of_createFolders {path : Path} (h : t.createFolders path = .ok t') {q : Place}
    {e : Entry} (hq : t.get? q = some e) : t'.get? q = some e := by
  unfold createFolders at h
  split at h
  · cases h
  · exact get?_of_createFrom h hq

/-- A file can be read as before when folders have been made. -/
theorem read_of_createFolders {folder path : Path} (h : t.createFolders folder = .ok t')
    {content : Bytes} (hread : t.read path = .ok content) : t'.read path = .ok content := by
  have hkeeps : t.Keeps t' := fun _ hq => get?_of_createFolders h hq
  obtain ⟨place, hlocate, hget⟩ := read_eq_ok_iff.1 hread
  exact read_eq_ok_iff.2 ⟨place, hkeeps.locate hlocate, get?_of_createFolders h hget⟩

/-- Nothing is made on the way to a folder that is there. -/
theorem createFrom_append {path rest : Path} (h : t.follow start path = .ok place)
    (hfolder : t.get? place = some .folder) :
    t.createFrom start (path ++ rest) = t.createFrom place rest := by
  induction path generalizing start with
  | nil =>
    cases h
    rfl
  | cons step path ih =>
    have hstart := isFolder_of_follow_cons h
    rw [follow_cons, hstart] at h
    rw [List.cons_append, createFrom]
    dsimp only at h ⊢
    -- a step that stays, one that goes up, and one that goes down
    split at h
    · next hstays => rw [if_pos hstays]; exact ih h
    · next hleaves =>
      rw [if_neg hleaves]
      split at h
      · next hup => rw [if_pos hup]; exact ih h
      · next hdown =>
        rw [if_neg hdown]
        split at h
        · cases h
        · next hshort =>
          rw [if_neg hshort, isFolder_of_follow h hfolder]
          exact ih h

/-- A step that is a name is taken, is made, or stops at a file. -/
theorem createFrom_name {n : String} {names : List String} (hname : Path.IsName n)
    (hshort : Path.isLongStep n = false) :
    t.createFrom start (n :: names) =
      match t.get? (start ++ [n]) with
      | none => (t.set (start ++ [n]) .folder).createFrom (start ++ [n]) names
      | some .folder => t.createFrom (start ++ [n]) names
      | some (.file _) => .error (if names.all (· == "") then .alreadyExists else .notAFolder) := by
  rcases hthere : t.get? (start ++ [n]) with _ | _ | content <;>
    simp only [createFrom, hname.1, hname.2, hshort, hthere, Bool.false_eq_true, if_false]

section

variable {names : List String} (hnames : ∀ n ∈ names, Path.IsName n)
  (hshort : ∀ n ∈ names, Path.isLongStep n = false)

include hnames hshort

/-- Folders with names are made below a folder if no file stands in their way. -/
theorem createFrom_of_free (hstart : t.get? start = some .folder)
    (hfree : ∀ p, p <+: names → t.isFile (start ++ p) = false) :
    ∃ t', t.createFrom start names = .ok t' ∧
      t.Overlaid (fun q e => ∃ p, p <+: names ∧ q = start ++ p ∧ e = .folder) t' := by
  induction names generalizing t start with
  | nil =>
    refine ⟨t, rfl, (Overlaid.refl t).mono nofun ?_⟩
    rintro q e ⟨p, hp, rfl, rfl⟩
    rw [List.prefix_nil.1 hp, List.append_nil]
    exact .inr hstart
  | cons n names ih =>
    -- below the first folder the same places are free
    have hdown (p : List String) (hp : p <+: names) : t.isFile (start ++ [n] ++ p) = false := by
      have := hfree (n :: p) (List.cons_prefix_cons.2 ⟨rfl, hp⟩)
      rwa [List.append_assoc]
    have hbelow : ∃ t', t.createFrom start (n :: names) = .ok t' ∧
        t.Overlaid (fun q e => ∃ p, p <+: names ∧ q = start ++ [n] ++ p ∧ e = .folder) t' := by
      rw [createFrom_name (hnames n List.mem_cons_self) (hshort n List.mem_cons_self)]
      have ih {t : FileTree} := @ih t (start ++ [n])
        (fun m hm => hnames m (List.mem_cons_of_mem _ hm))
        (fun m hm => hshort m (List.mem_cons_of_mem _ hm))
      cases hget : t.get? (start ++ [n]) with
      | none =>
        have hplace := isName_concat (isName_of_get? hstart) (hnames n List.mem_cons_self)
        have hset := Overlaid.set (t := t) (e := .folder) (List.concat_ne_nil n start) hplace
        obtain ⟨t', hok, hover⟩ := ih (hset.added ⟨rfl, rfl⟩) fun p hp =>
          isFile_set_folder (hdown p hp)
        -- whichever of the two adds the entry, it is a folder
        have hagree : ∀ (q : Place) (e e' : Entry), q = start ++ [n] ∧ e = .folder →
            (∃ p, p <+: names ∧ q = start ++ [n] ++ p ∧ e' = .folder) → e = e' := by
          rintro q e e' ⟨-, rfl⟩ ⟨p, -, -, rfl⟩
          rfl
        refine ⟨t', hok, (hset.trans hover hagree).mono ?_ fun q e h => .inl (.inr h)⟩
        rintro q e (⟨rfl, rfl⟩ | h)
        · exact ⟨[], List.nil_prefix, by simp, rfl⟩
        · exact h
      | some e =>
        cases e with
        | file content =>
          have := hdown [] List.nil_prefix
          simp [isFile, hget] at this
        | folder => exact ih hget hdown
    obtain ⟨t', hok, hover⟩ := hbelow
    refine ⟨t', hok, hover.mono ?_ ?_⟩
    · rintro q e ⟨p, hp, rfl, rfl⟩
      exact ⟨n :: p, List.cons_prefix_cons.2 ⟨rfl, hp⟩, by simp, rfl⟩
    · rintro q e ⟨p, hp, rfl, rfl⟩
      cases p with
      -- the folder that is started from is there anyhow
      | nil => exact .inr (by simpa using get?_of_createFrom hok hstart)
      | cons m p =>
        obtain ⟨rfl, hrest⟩ := List.cons_prefix_cons.1 hp
        exact .inl ⟨p, hrest, by simp, rfl⟩

/-- All of them are there afterwards. -/
theorem get?_below_of_createFrom (hstart : t.get? start = some .folder)
    (h : t.createFrom start names = .ok t') {p : List String} (hp : p <+: names) (hne : p ≠ []) :
    t'.get? (start ++ p) = some .folder := by
  induction names generalizing t start p with
  | nil => exact absurd (List.prefix_nil.1 hp) hne
  | cons n names ih =>
    rw [createFrom_name (hnames n List.mem_cons_self) (hshort n List.mem_cons_self)] at h
    -- whether the first folder is made or was there, the others are made from it
    have hbelow : ∃ t₁ : FileTree, t₁.createFrom (start ++ [n]) names = .ok t' ∧
        t₁.get? (start ++ [n]) = some .folder := by
      split at h
      · have hplace := isName_concat (isName_of_get? hstart) (hnames n List.mem_cons_self)
        exact ⟨_, h, (Overlaid.set (List.concat_ne_nil n start) hplace).added ⟨rfl, rfl⟩⟩
      · next hfolder => exact ⟨_, h, hfolder⟩
      · cases h
    obtain ⟨t₁, hok, hfolder⟩ := hbelow
    cases p with
    | nil => exact absurd rfl hne
    | cons m p =>
      obtain ⟨rfl, hrest⟩ := List.cons_prefix_cons.1 hp
      cases p with
      | nil => exact get?_of_createFrom hok hfolder
      | cons k p =>
        have := ih (fun m hm => hnames m (List.mem_cons_of_mem _ hm))
          (fun m hm => hshort m (List.mem_cons_of_mem _ hm)) hfolder hok hrest
          (List.cons_ne_nil k p)
        simpa using this

/-- No folder is made if a file stands in the way of one. -/
theorem createFrom_of_blocked (hstart : t.get? start = some .folder) {p : List String}
    (hp : p <+: names) (hfile : t.isFile (start ++ p) = true) :
    ∃ fault, t.createFrom start names = .error fault := by
  obtain ⟨content, hcontent⟩ := isFile_iff.1 hfile
  cases hcreate : t.createFrom start names with
  | error fault => exact ⟨fault, rfl⟩
  | ok t' =>
    have hne : p ≠ [] := by
      rintro rfl
      rw [List.append_nil, hstart] at hcontent
      cases hcontent
    -- all of the folders would have been made, and the file would be one of them
    have hfolder := get?_below_of_createFrom hnames hshort hstart hcreate hp hne
    rw [get?_of_createFrom hcreate hcontent] at hfolder
    cases hfolder

end

/-! ### Writing files -/

theorem write_of_getLast? {path : Path} (h : path.getLast? ≠ some "") (content : Bytes) :
    t.write path content =
      match t.locate path with
      | .error fault => .error fault
      | .ok place =>
        if t.isFolder place then .error .isAFolder else .ok (t.set place (.file content)) := by
  have hunclosed : path.unclosed = path := if_neg h
  rw [write, hunclosed]
  cases t.locate path with
  | error fault => rfl
  | ok place =>
    change (if path.getLast? = some "" then _ else _) = _
    rw [if_neg h]
    dsimp only
    cases hget : t.get? place with
    | none => simp [isFolder, hget]
    | some e => cases e <;> simp [isFolder, hget]

/-! ### Below a folder

A path below a folder is the path of the folder with names behind it. It leads to the folder first,
in whichever way its text does, and goes down by the names from there. So what can be done below a
folder is settled by the names and by how long the whole path is. -/

/-- A folder can be made by names from a folder: the path is not too long, and no file stands in the
way. -/
def hasWay (t : FileTree) (folder : Path) (target : Place) (names : List String) : Bool :=
  !(folder.below names).isLong && names.inits.all fun p => !t.isFile (target ++ p)

/-- A file can be written by names from a folder: neither its name nor the path is too long, and it
is no folder. -/
def canWrite (t : FileTree) (folder : Path) (target : Place) (names : List String) : Bool :=
  !Path.isLongStep (names.getLastD "") && !(folder.below names).isLong
    && !t.isFolder (target ++ names)

theorem hasWay_iff {folder : Path} {names : List String} :
    t.hasWay folder target names ↔ (folder.below names).isLong = false ∧
      ∀ p, p <+: names → t.isFile (target ++ p) = false := by
  simp [hasWay, List.mem_inits]

theorem canWrite_iff {folder : Path} {names : List String} :
    t.canWrite folder target names ↔ Path.isLongStep (names.getLastD "") = false ∧
      (folder.below names).isLong = false ∧ t.isFolder (target ++ names) = false := by
  simp [canWrite, and_assoc]

section

variable {folder : Path} (hfolder : t.locate folder = .ok target)
  (htarget : t.get? target = some .folder) {names : List String}
  (hnames : ∀ n ∈ names, Path.IsName n)

include hfolder

theorem follow_below (hne : names ≠ []) :
    t.follow [] (folder.below names) = t.follow target names := by
  rw [Path.below_of_ne_nil hne, follow_append, follow_unclosed (follow_of_locate hfolder).1]
  rfl

include htarget

theorem createFrom_below :
    t.createFrom [] (folder.below names) = t.createFrom target names := by
  obtain ⟨hfollow, -⟩ := follow_of_locate hfolder
  by_cases hne : names = []
  · subst hne
    -- with no names nothing is made
    have hnothing : t.createFrom [] (folder ++ []) = t.createFrom target [] :=
      createFrom_append hfollow htarget
    rwa [List.append_nil] at hnothing
  · rw [Path.below_of_ne_nil hne]
    exact createFrom_append (follow_unclosed hfollow) htarget

include hnames

theorem createFolders_of_hasWay (hshort : ∀ n ∈ names, Path.isLongStep n = false)
    (hway : t.hasWay folder target names) :
    ∃ t', t.createFolders (folder.below names) = .ok t' ∧
      t.Overlaid (fun q e => ∃ p, p <+: names ∧ q = target ++ p ∧ e = .folder) t' := by
  obtain ⟨hlong, hfree⟩ := hasWay_iff.1 hway
  rw [createFolders, hlong, if_neg Bool.false_ne_true, createFrom_below hfolder htarget]
  exact createFrom_of_free hnames hshort htarget hfree

theorem createFolders_of_not_hasWay (hshort : ∀ n ∈ names, Path.isLongStep n = false)
    (hway : t.hasWay folder target names = false) :
    ∃ fault, t.createFolders (folder.below names) = .error fault := by
  rw [createFolders]
  split
  · exact ⟨_, rfl⟩
  · next hlong =>
    rw [createFrom_below hfolder htarget]
    have hblocked : ∃ p, p <+: names ∧ t.isFile (target ++ p) = true := by
      simpa [hasWay, hlong, List.mem_inits] using hway
    obtain ⟨p, hp, hfile⟩ := hblocked
    exact createFrom_of_blocked hnames hshort htarget hp hfile

omit htarget in
/-- Where a file goes that is written below a folder, the folder around it being there. -/
theorem locate_below (hne : names ≠ [])
    (hshort : ∀ n ∈ names.dropLast, Path.isLongStep n = false)
    (haround : ∀ p, p <+: names.dropLast → t.get? (target ++ p) = some .folder) :
    t.locate (folder.below names) =
      if (folder.below names).isLong || Path.isLongStep (names.getLastD "") then
        .error .nameTooLong
      else .ok (target ++ names) := by
  obtain ⟨around, last, rfl⟩ := List.eq_nil_or_concat' names |>.resolve_left hne
  rw [List.dropLast_concat] at hshort haround
  -- a name is neither empty nor a step that stays
  have hlast : Path.IsName last := hnames last (by simp)
  have hsome : ¬ (folder.below (around ++ [last]) = []
      ∨ folder.below (around ++ [last]) = [""]) := by
    rw [Path.below_of_ne_nil hne, ← List.append_assoc]
    rintro (h | h)
    · exact List.concat_ne_nil _ _ h
    · have := congrArg List.getLast? h
      simp [hlast.ne_empty] at this
  have haroundNames : ∀ n ∈ around, Path.IsName n := fun n hn =>
    hnames n (List.mem_append_left _ hn)
  have hfollow : t.follow target (around ++ [last])
      = if Path.isLongStep last then .error .nameTooLong
        else .ok (target ++ (around ++ [last])) := by
    rw [follow_append, follow_names haroundNames hshort fun p hp =>
      haround p (hp.trans (List.dropLast_prefix around))]
    change t.follow (target ++ around) [last] = _
    rw [follow_name hlast (haround around List.prefix_rfl), List.append_assoc]
    rfl
  rw [locate, if_neg hsome, follow_below hfolder hne, hfollow, List.getLastD_concat]
  cases (folder.below (around ++ [last])).isLong <;> rfl

omit htarget in
/-- A file is written below a folder, the folder around it being there, exactly if it can be. -/
theorem write_below (hne : names ≠ [])
    (hshort : ∀ n ∈ names.dropLast, Path.isLongStep n = false)
    (haround : ∀ p, p <+: names.dropLast → t.get? (target ++ p) = some .folder)
    (content : Bytes) :
    if t.canWrite folder target names then
      t.write (folder.below names) content = .ok (t.set (target ++ names) (.file content))
    else ∃ fault, t.write (folder.below names) content = .error fault := by
  rw [write_of_getLast? (Path.getLast?_below folder hnames hne),
    locate_below hfolder hnames hne hshort haround]
  split
  · -- it can be written: the path leads to a place where no folder is
    next hcan =>
    obtain ⟨hname, hlong, hplace⟩ := canWrite_iff.1 hcan
    rw [hname, hlong, Bool.or_self, if_neg Bool.false_ne_true]
    exact if_neg (Bool.not_eq_true _ ▸ hplace)
  · -- it cannot: the path is refused, or a folder is in the way
    next hcannot =>
    split
    · exact ⟨_, rfl⟩
    · next place hplace =>
      split at hplace
      · cases hplace
      · next hlength =>
        cases hplace
        rw [Bool.not_eq_true, Bool.or_eq_false_iff] at hlength
        have hfolder : t.isFolder (target ++ names) = true := by
          rw [canWrite_iff, not_and, not_and, Bool.not_eq_false] at hcannot
          exact hcannot hlength.2 hlength.1
        rw [if_pos hfolder]
        exact ⟨_, rfl⟩

end

end FileTree
end ShaderBytecode
