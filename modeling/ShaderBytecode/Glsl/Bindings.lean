/-!
# Block bindings

The caller may fix the binding numbers of uniform blocks by a list of their names. The number of a
block is the place of its name in the list; a name that occurs again further down still takes a
place but keeps its first number.

Numbers are words, so that places are counted modulo `2 ^ 32`.
-/

namespace ShaderBytecode

/-- The names of uniform blocks in the order of their binding numbers. -/
structure BlockBindings where
  names : List String
deriving DecidableEq, Repr

namespace BlockBindings

/-- Names with their numbers, where no name has two. -/
structure Table where
  entries : List (String × UInt32)
  nodup : (entries.map (·.1)).Nodup

namespace Table

def empty : Table := ⟨[], .nil⟩

def names (t : Table) : List String := t.entries.map (·.1)

/-- Give a name a number, unless it has one. -/
def insertNew (t : Table) (name : String) (number : UInt32) : Table :=
  if h : name ∈ t.names then t
  else ⟨(name, number) :: t.entries, List.nodup_cons.2 ⟨h, t.nodup⟩⟩

/-- Number names by their places, which are counted from `place` on. -/
def number (t : Table) (place : Nat) : List String → Table
  | [] => t
  | name :: names => (t.insertNew name place.toUInt32).number (place + 1) names

def get? (t : Table) (name : String) : Option UInt32 := t.entries.lookup name

end Table

def table (b : BlockBindings) : Table := Table.empty.number 0 b.names

def get? (b : BlockBindings) (name : String) : Option Nat := (b.table.get? name).map UInt32.toNat

/-- The number of different names. -/
def size (b : BlockBindings) : Nat := b.table.entries.length

def isEmpty (b : BlockBindings) : Bool := b.size == 0

end BlockBindings
end ShaderBytecode
