import ShaderBytecode.Bytes.Basic

/-!
# Computing with words

Slots, byte offsets and the numbers of registers are 32-bit words. The sum of two words need not be
one, a difference may be below zero, and a position in a row may be none of its components. Whoever
computes with words keeps the computations as `WordStep`s; the first that leaves its range is where
the whole computation ends. A `Lane` is a component by its type and needs no step.
-/

namespace ShaderBytecode

inductive WordStep where
  | sum (a b : Nat)
  | difference (a b : Nat)
  /-- The component at a position of a row. -/
  | component (position : Nat)
deriving DecidableEq, Repr

namespace WordStep

def rowComponents : Nat := 4

/-- The result of the computation is a word or, for a position, a component. -/
def inRange : WordStep → Bool
  | sum a b => a + b < wordLimit
  | difference a b => b ≤ a
  | component position => position < rowComponents

def message : WordStep → String
  | sum _ _ => "attempt to add with overflow"
  | difference _ _ => "attempt to subtract with overflow"
  | component position =>
    s!"index out of bounds: the len is {rowComponents} but the index is {position}"

end WordStep

/-- The elements that a search for the first one with a property looks at: those in front of it and
the one itself. -/
def lookedAt (p : α → Bool) : List α → List α
  | [] => []
  | a :: l => a :: if p a then [] else lookedAt p l

theorem mem_of_mem_lookedAt {p : α → Bool} {l : List α} {a : α} (h : a ∈ lookedAt p l) : a ∈ l := by
  induction l with
  | nil => exact h
  | cons b l ih =>
    simp only [lookedAt, List.mem_cons] at h ⊢
    split at h <;> grind

end ShaderBytecode
