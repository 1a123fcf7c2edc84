import Mathlib.Data.Finset.Card
import ShaderBytecode.Proofs.Bytes.Records
import ShaderBytecode.Proofs.CommandLine.InMemory
import ShaderBytecode.Proofs.Files.Paths
import ShaderBytecode.Proofs.Text.Lines

/-!
# Binding numbers by name

The table of binding numbers is filled name by name. A name that is new gets the number of names in
front of it, and a name that has a number keeps it. So at any time the table numbers the names that
have been seen, each by the first place where it stands:

    Numbers.insertNew : one name                     (what a step keeps)
    Numbers.number    : any number of names          (what a run keeps)
    numbers_table     : the names of a whole list

A command takes the names from the lines of a file, and `numbered_by_first_place` says the same of
these: blank lines and lines that repeat a name count, and do not move a name.
-/

namespace ShaderBytecode
namespace BlockBindings

/-! ### First places

The place of a name is stated of the list alone, without the table: the name stands there, and
nowhere in front of it. It is therefore unique, and adding a name at the end leaves it. -/

/-- The name stands at the place and nowhere in front of it. -/
def FirstAt (names : List String) (name : String) (place : Nat) : Prop :=
  names[place]? = some name ∧ ∀ earlier < place, names[earlier]? ≠ some name

instance (names : List String) (name : String) (place : Nat) :
    Decidable (FirstAt names name place) :=
  inferInstanceAs (Decidable (_ ∧ _))

section

variable {names : List String} {name added : String} {place : Nat}

theorem FirstAt.lt_length (h : FirstAt names name place) : place < names.length :=
  (List.getElem?_eq_some_iff.1 h.1).1

theorem FirstAt.mem (h : FirstAt names name place) : name ∈ names := List.mem_of_getElem? h.1

/-- One more name has its first place at the end if it is new, and other first places stay. -/
theorem firstAt_concat :
    FirstAt (names ++ [added]) name place ↔
      FirstAt names name place ∨ place = names.length ∧ name = added ∧ added ∉ names := by
  -- what stands in front of the end is what stood there before
  have hfront {i : Nat} (hi : i < names.length) : (names ++ [added])[i]? = names[i]? :=
    List.getElem?_append_left hi
  constructor
  · intro h
    have hle : place ≤ names.length := by simpa [Nat.lt_succ_iff] using h.lt_length
    obtain ⟨hplace, hearlier⟩ := h
    rcases Nat.lt_or_eq_of_le hle with hlt | rfl
    · refine .inl ⟨hfront hlt ▸ hplace, fun i hi => ?_⟩
      exact hfront (Nat.lt_trans hi hlt) ▸ hearlier i hi
    · -- the end is the first place only if the name stands nowhere in front of it
      rw [List.getElem?_concat_length, Option.some.injEq] at hplace
      refine .inr ⟨rfl, hplace.symm, fun hmem => ?_⟩
      obtain ⟨i, hi, hget⟩ := List.mem_iff_getElem.1 hmem
      refine hearlier i hi ?_
      rw [hfront hi, List.getElem?_eq_getElem hi, hget, hplace]
  · rintro (h | ⟨rfl, rfl, hnew⟩)
    · have hlt := h.lt_length
      refine ⟨(hfront hlt).trans h.1, fun i hi => ?_⟩
      rw [hfront (Nat.lt_trans hi hlt)]
      exact h.2 i hi
    · refine ⟨List.getElem?_concat_length, fun i hi => ?_⟩
      rw [hfront hi]
      exact fun hget => hnew (List.mem_of_getElem? hget)

end

/-! ### Tables

`insertNew` is the one operation on tables, and it takes the number from outside. What makes the
number the right one is that it is the length of the list that has been seen, which is why `Numbers`
speaks of a table and a list together. -/

namespace Table

section

variable {t : Table} {names : List String} {name : String}

theorem get?_eq_none_iff : t.get? name = none ↔ name ∉ t.names := by
  simp only [get?, Table.names, List.lookup_eq_none_iff, bne_iff_ne, List.mem_map, not_exists,
    not_and]
  exact forall₂_congr fun _ _ => ne_comm

theorem mem_names_insertNew {added : String} {number : UInt32} :
    name ∈ (t.insertNew added number).names ↔ name ∈ t.names ∨ name = added := by
  unfold insertNew
  split
  · -- the name is there already, and the table stays
    next hmem => exact ⟨.inl, fun h => h.elim id fun heq => heq ▸ hmem⟩
  · simp [Table.names, or_comm]

theorem get?_insertNew (t : Table) (added : String) (number : UInt32) (name : String) :
    (t.insertNew added number).get? name =
      if name = added ∧ added ∉ t.names then some number else t.get? name := by
  unfold insertNew
  split
  · next hmem => rw [if_neg fun h => h.2 hmem]
  · -- it is new, and behind all entries; so the lookup of another name is not changed
    next hnew =>
    rw [get?, List.lookup_cons]
    by_cases heq : name = added
    · rw [if_pos ⟨heq, hnew⟩, beq_iff_eq.2 heq]
    · rw [if_neg fun h => heq h.1, beq_eq_false_iff_ne.2 heq]
      rfl

/-- A table has a number for the names of a list and for no other, and it is the first place of the
name as a word. -/
structure Numbers (t : Table) (names : List String) : Prop where
  mem_names_iff : ∀ name, name ∈ t.names ↔ name ∈ names
  get?_eq_some_iff : ∀ name number, t.get? name = some number ↔
    ∃ place, FirstAt names name place ∧ number = place.toUInt32

theorem numbers_empty : empty.Numbers [] where
  mem_names_iff name := by simp [empty, Table.names]
  get?_eq_some_iff name number := by
    refine iff_of_false nofun ?_
    rintro ⟨place, hfirst, -⟩
    cases hfirst.mem

/-- One more name gets the number of the names in front of it. -/
theorem Numbers.insertNew (h : t.Numbers names) (added : String) :
    (t.insertNew added names.length.toUInt32).Numbers (names ++ [added]) where
  mem_names_iff name := by
    rw [mem_names_insertNew, h.mem_names_iff, List.mem_append, List.mem_singleton]
  get?_eq_some_iff name number := by
    simp only [get?_insertNew, firstAt_concat, h.mem_names_iff]
    split
    · next hnew =>
      -- the name has no place in front, so that its number is that of the end
      obtain ⟨rfl, hnew⟩ := hnew
      constructor
      · intro heq
        exact ⟨names.length, .inr ⟨rfl, rfl, hnew⟩, (Option.some.inj heq).symm⟩
      · rintro ⟨place, hfirst | ⟨rfl, -, -⟩, rfl⟩
        · exact absurd hfirst.mem hnew
        · rfl
    · next hold =>
      rw [h.get?_eq_some_iff]
      refine exists_congr fun place => and_congr_left fun _ => ?_
      exact (or_iff_left fun hlast => hold hlast.2).symm

/-- Names that are numbered behind others have the places that they have in the whole list. -/
theorem Numbers.number (h : t.Numbers names) (more : List String) :
    (t.number names.length more).Numbers (names ++ more) := by
  induction more generalizing t names with
  | nil => rwa [List.append_nil]
  -- the rest is numbered from one place further on
  | cons name more ih =>
    have hrest := ih (h.insertNew name)
    rw [List.length_append, List.length_singleton, List.append_assoc] at hrest
    exact hrest

/-- A table has as many entries as there are different names. -/
theorem Numbers.length_entries (h : t.Numbers names) :
    t.entries.length = names.toFinset.card := by
  have hsame : t.names.toFinset = names.toFinset := by
    ext name
    rw [List.mem_toFinset, List.mem_toFinset, h.mem_names_iff]
  have hnodup : t.names.Nodup := t.nodup
  rw [← hsame, List.toFinset_card_of_nodup hnodup, Table.names, List.length_map]

end

end Table

/-- The table of a list numbers its names. -/
theorem numbers_table (b : BlockBindings) : b.table.Numbers b.names :=
  Table.numbers_empty.number b.names

/-! ### Answers

Numbers are words, and words begin again after the last. So the answer is a remainder in general and
the place itself in any list that a file can hold. -/

/-- The answers about a list of names. A number is a word, so that a list that is longer than words
can count begins again with `0`. -/
structure ByFirstPlace (b : BlockBindings) (names : List String) : Prop where
  get?_eq_some_iff : ∀ name number, b.get? name = some number ↔
    ∃ place, FirstAt names name place ∧ number = place % wordLimit
  /-- In a list that words can count, the number is the first place itself. -/
  get?_eq_some_iff_firstAt : names.length ≤ wordLimit → ∀ name number,
    b.get? name = some number ↔ FirstAt names name number
  get?_eq_none_iff : ∀ name, b.get? name = none ↔ name ∉ names
  size_eq : b.size = names.toFinset.card

theorem get?_eq_some_iff_mod (b : BlockBindings) (name : String) (number : Nat) :
    b.get? name = some number ↔
      ∃ place, FirstAt b.names name place ∧ number = place % wordLimit := by
  have hword (place : Nat) : place.toUInt32.toNat = place % wordLimit := UInt32.toNat_ofNat'
  simp only [get?, Option.map_eq_some_iff, b.numbers_table.get?_eq_some_iff]
  constructor
  · rintro ⟨_, ⟨place, hfirst, rfl⟩, rfl⟩
    exact ⟨place, hfirst, hword place⟩
  · rintro ⟨place, hfirst, rfl⟩
    exact ⟨_, ⟨place, hfirst, rfl⟩, hword place⟩

/-- The names of a list are numbered by their first places. -/
theorem byFirstPlace_names (b : BlockBindings) : b.ByFirstPlace b.names where
  get?_eq_some_iff := b.get?_eq_some_iff_mod
  get?_eq_some_iff_firstAt hlength name number := by
    rw [get?_eq_some_iff_mod]
    have hmod {place : Nat} (hfirst : FirstAt b.names name place) : place % wordLimit = place :=
      Nat.mod_eq_of_lt (Nat.lt_of_lt_of_le hfirst.lt_length hlength)
    constructor
    · rintro ⟨place, hfirst, rfl⟩
      rwa [hmod hfirst]
    · exact fun hfirst => ⟨number, hfirst, (hmod hfirst).symm⟩
  get?_eq_none_iff name := by
    rw [get?, Option.map_eq_none_iff, Table.get?_eq_none_iff, b.numbers_table.mem_names_iff]
  size_eq := b.numbers_table.length_entries

end BlockBindings

/-! ### The command

The command reads the file once, before it does anything else. That reading changes nothing is part
of the statement, since the table is used by what follows. -/

namespace Command

/-- A file of names is read to its end and changes nothing. -/
theorem run_shaderOptions (w : World) {path : String} {version : Nat} {text : String}
    (hread : w.files.read (Path.ofText path) = .ok (Utf8.encode text)) :
    w.run (shaderOptions ⟨some path, version⟩) = (.ok ⟨.ofText text, version⟩, w) := by
  have hdecode : Utf8.decode (Utf8.encode text) = .ok text := Utf8.decode_eq_ok_iff.2 rfl
  simp only [shaderOptions, World.run_bind, run_attempt_read, hread, Except.mapError, hdecode]
  rfl

/-- A file of names with a blank line, a name that is repeated, and line ends of both kinds. -/
def namesWorld : World where
  files := .ofFiles [(["names"], Utf8.encode "PerFrame\r\n Globals \n\n\tGlobals\r\nPerDraw")]
  printed := ""
  duration := ""

end Command
end ShaderBytecode
