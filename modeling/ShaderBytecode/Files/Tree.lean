import ShaderBytecode.Bytes.Basic
import ShaderBytecode.Files.Basic

/-!
# Trees of files

A tree holds files and folders, each at its place, which is the list of names that leads to it from
the root. The root itself is always there and is a folder. No place is listed twice, and there are
only names on the way to a place, no steps that stay or go up: a tree carries both with it.

`FileTree.get?` is what a tree looks like; two trees with the same entries at all places differ only
in the order in which they list them.
-/

namespace ShaderBytecode

/-- The names that lead to an entry from the root. -/
abbrev Place := List String

inductive Entry where
  | file (content : Bytes)
  | folder
deriving DecidableEq, Repr

structure FileTree where
  entries : List (Place × Entry)
  nodup : (entries.map Prod.fst).Nodup
  isName : ∀ place ∈ entries.map Prod.fst, ∀ n ∈ place, Path.IsName n
deriving DecidableEq, Repr

namespace FileTree

/-! ### Entries -/

def empty : FileTree := ⟨[], List.nodup_nil, nofun⟩

def get? (t : FileTree) (place : Place) : Option Entry :=
  if place = [] then some .folder else t.entries.lookup place

/-- Entries with one of them put at a place, instead of what is there. -/
def put (place : Place) (e : Entry) : List (Place × Entry) → List (Place × Entry)
  | [] => [(place, e)]
  | (p, old) :: entries =>
    if p = place then (place, e) :: entries else (p, old) :: put place e entries

theorem lookup_put (place q : Place) (e : Entry) (entries : List (Place × Entry)) :
    (put place e entries).lookup q = if q = place then some e else entries.lookup q := by
  induction entries with
  | nil =>
    by_cases hq : q = place
    · simp [put, hq]
    · simp [put, List.lookup_cons, hq, beq_eq_false_iff_ne.2 hq]
  | cons head entries ih =>
    obtain ⟨p, old⟩ := head
    by_cases hp : p = place
    · subst hp
      by_cases hq : q = p
      · simp [put, hq]
      · simp [put, List.lookup_cons, hq, beq_eq_false_iff_ne.2 hq]
    · by_cases hq : q = p
      · subst hq; simp [put, hp]
      · simp [put, hp, List.lookup_cons, beq_eq_false_iff_ne.2 hq, ih]

theorem mem_places_put {place q : Place} {e : Entry} {entries : List (Place × Entry)} :
    q ∈ (put place e entries).map Prod.fst ↔ q = place ∨ q ∈ entries.map Prod.fst := by
  induction entries with
  | nil => simp [put]
  | cons head entries ih =>
    obtain ⟨p, old⟩ := head
    rw [put]
    split
    · next hp => simp [hp]
    · rw [List.map_cons, List.mem_cons, ih, List.map_cons, List.mem_cons]
      exact or_left_comm

theorem nodup_places_put {place : Place} {e : Entry} {entries : List (Place × Entry)}
    (h : (entries.map Prod.fst).Nodup) : ((put place e entries).map Prod.fst).Nodup := by
  induction entries with
  | nil => exact List.nodup_cons.2 ⟨nofun, List.nodup_nil⟩
  | cons head entries ih =>
    obtain ⟨p, old⟩ := head
    rw [put]
    split
    · next hp =>
      subst hp
      exact h
    · next hp =>
      rw [List.map_cons, List.nodup_cons] at h ⊢
      refine ⟨?_, ih h.2⟩
      rw [mem_places_put, not_or]
      exact ⟨hp, h.1⟩

/-- The tree with an entry at a place, instead of what is there. No tree has anything at a place
that names do not lead to. -/
def set (t : FileTree) (place : Place) (e : Entry) : FileTree :=
  if h : ∀ n ∈ place, Path.IsName n then
    { entries := put place e t.entries
      nodup := nodup_places_put t.nodup
      isName := fun _ hp => (mem_places_put.1 hp).elim (fun hplace => hplace ▸ h) (t.isName _) }
  else t

/-- Setting an entry changes its place and no other. -/
theorem get?_set (t : FileTree) {place : Place} (hplace : ∀ n ∈ place, Path.IsName n) (q : Place)
    (e : Entry) :
    (t.set place e).get? q =
      if q = [] then some .folder else if q = place then some e else t.get? q := by
  by_cases hq : q = []
  · simp [get?, hq]
  · simp [get?, set, dif_pos hplace, hq, lookup_put]

/-- The tree of some files, with the folders around them. -/
def ofFiles (files : List (Place × Bytes)) : FileTree :=
  files.foldl
    (fun t (place, content) =>
      -- the folders around a file, from the outermost to the innermost
      let around := (List.range' 1 (place.length - 1)).map place.take
      (around.foldl (fun t folder => t.set folder .folder) t).set place (.file content))
    empty

/-! ### Paths -/

/-- The place that a path leads to from a place. Every step starts from a folder; what the last step
leads to need not be there. -/
def follow (t : FileTree) (start : Place) : Path → Except FileFault Place
  | [] => .ok start
  | step :: path =>
    match t.get? start with
    | none => .error .notFound
    | some (.file _) => .error .notAFolder
    | some .folder =>
      if Path.staysAt step then t.follow start path
      else if step = ".." then t.follow start.dropLast path
      else if Path.isLongStep step then .error .nameTooLong
      else t.follow (start ++ [step]) path

/-- The place that a path leads to from the root. The empty path leads nowhere. -/
def locate (t : FileTree) (path : Path) : Except FileFault Place :=
  if path = [] ∨ path = [""] then .error .notFound
  else if path.isLong then .error .nameTooLong
  else t.follow [] path

/-! ### Operations -/

def read (t : FileTree) (path : Path) : Except FileFault Bytes := do
  let place ← t.locate path
  match t.get? place with
  | none => .error .notFound
  | some .folder => .error .isAFolder
  | some (.file content) => .ok content

/-- The tree with a file written, new or instead of one that is there. The folder around it must be
there. -/
def write (t : FileTree) (path : Path) (content : Bytes) : Except FileFault FileTree := do
  let place ← t.locate path.unclosed
  -- a path that ends in a separator asks for a folder
  if path.getLast? = some "" then .error .isAFolder
  match t.get? place with
  | some .folder => .error .isAFolder
  | _ => .ok (t.set place (.file content))

/-- The tree with a folder at the end of a path from a place, and all folders on the way there. -/
def createFrom (t : FileTree) (start : Place) : Path → Except FileFault FileTree
  | [] => .ok t
  | step :: path =>
    if Path.staysAt step then t.createFrom start path
    else if step = ".." then t.createFrom start.dropLast path
    else if Path.isLongStep step then .error .nameTooLong
    else
      let place := start ++ [step]
      match t.get? place with
      | none => (t.set place .folder).createFrom place path
      | some .folder => t.createFrom place path
      -- what is in the way is told apart by whether the path ends there
      | some (.file _) => .error (if path.all (· == "") then .alreadyExists else .notAFolder)

/-- The tree with a folder, and all folders around it. -/
def createFolders (t : FileTree) (path : Path) : Except FileFault FileTree :=
  if path.isLong then .error .nameTooLong else t.createFrom [] path

/-- The files at or below a path, each by the names that lead to it from there. -/
def walk (t : FileTree) (path : Path) : List (List String) :=
  match t.locate path with
  | .error _ => []
  | .ok place =>
    t.entries.filterMap fun (p, e) =>
      match e with
      | .file _ => if place.isPrefixOf p then some (p.drop place.length) else none
      | .folder => none

end FileTree
end ShaderBytecode
