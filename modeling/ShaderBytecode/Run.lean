/-!
# Runs that stop at the first fault

A run carries out steps one after the other until one fails. It keeps what was completed before the
fault, so that one can tell afterwards both how far it came and why it stopped.
-/

namespace ShaderBytecode

/-- What a sequence of steps completed, and the fault that stopped it. -/
structure Run (ε α : Type) where
  completed : List α
  fault : Option ε

namespace Run

def done : Run ε α := ⟨[], none⟩

def stopped (e : ε) : Run ε α := ⟨[], some e⟩

/-- A run with one more completed step in front. -/
def cons (a : α) (r : Run ε α) : Run ε α := ⟨a :: r.completed, r.fault⟩

/-- All that was completed, if nothing failed. -/
def result (r : Run ε α) : Except ε (List α) :=
  match r.fault with
  | none => .ok r.completed
  | some e => .error e

@[simp] theorem result_done : (done : Run ε α).result = .ok [] := rfl

@[simp] theorem result_stopped (e : ε) : (stopped e : Run ε α).result = .error e := rfl

@[simp] theorem result_cons (a : α) (r : Run ε α) :
    (cons a r).result = (a :: ·) <$> r.result := by
  obtain ⟨completed, fault⟩ := r
  cases fault <;> rfl

end Run
end ShaderBytecode
