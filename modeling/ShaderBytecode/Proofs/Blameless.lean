import ShaderBytecode.Error

/-!
# Who is to blame

Two causes of failure would be the fault of the decoder and not of its input: to ask for bits that
do not lie within a word, and to take an operation apart by another number of operands than it has.
An action that never fails for one of them is blameless. It is so for the reason its parts are, and
reading a payload is blameless whatever the payload holds.

Neither cause can be seen in a type: the bits of a word are given as numbers, and the number of
operands of an operation as the length of a list. So the decoder could ask for too much, and that it
never does is shown part by part.
-/

namespace ShaderBytecode

/-! ### Defects -/

/-- The decoder is to blame for a cause, and not its input. Decoding neither prints text nor writes
files, so that no cause is of that kind. -/
def DecodeError.isDefect : DecodeError → Bool
  | bitRange _ _ => true
  | unsupported .operandCount _ => true
  | _ => false

/-- The decoder is to blame for what it says about a container, and not the container. -/
def ContainerError.isDefect : ContainerError → Bool
  | chunk _ cause => cause.isDefect
  | _ => false

/-- Errors, some of which are defects. -/
class HasDefects (ε : Type) where
  isDefect : ε → Bool

instance : HasDefects DecodeError := ⟨DecodeError.isDefect⟩

instance : HasDefects ContainerError := ⟨ContainerError.isDefect⟩

/-! ### Results

How a result is put together from other results. A failure is passed on or renamed, never made, by
all of these, so that only what is thrown needs a look. -/

section

variable {ε : Type} [HasDefects ε]

/-- If there is no result, the input is to blame. -/
def Blameless (x : Except ε α) : Prop := ∀ e, x = .error e → ¬ HasDefects.isDefect e

/-- A result that is there blames nobody. -/
theorem blameless_pure (a : α) : Blameless (pure a : Except ε α) := by
  intro e h
  cases h

/-- A failure for another cause blames the input. -/
theorem blameless_error {e : ε} (h : ¬ HasDefects.isDefect e) :
    Blameless (.error e : Except ε α) := by
  intro e' h'
  cases h'
  exact h

/-- What comes after may rely on the result it comes after. -/
theorem Blameless.bind {x : Except ε α} {f : α → Except ε β} (h : Blameless x)
    (h' : ∀ a, x = .ok a → Blameless (f a)) : Blameless (x >>= f) := by
  cases x with
  | error e => exact blameless_error (h e rfl)
  | ok a => exact h' a rfl

/-- A change to a result makes no failure. -/
theorem Blameless.map {x : Except ε α} (h : Blameless x) (f : α → β) : Blameless (x.map f) := by
  cases x with
  | error e => exact blameless_error (h e rfl)
  | ok a => exact blameless_pure (f a)

/-- A failure that gets another name is judged by that name. -/
theorem blameless_mapError {x : Except ε' α} {f : ε' → ε}
    (h : ∀ e, x = .error e → ¬ HasDefects.isDefect (f e)) : Blameless (x.mapError f) := by
  cases x with
  | error e => exact blameless_error (h e rfl)
  | ok a => exact blameless_pure a

/-- A list of results is blameless if each of them is. -/
theorem blameless_mapM {f : α → Except ε β} {l : List α} (h : ∀ a ∈ l, Blameless (f a)) :
    Blameless (l.mapM f) := by
  induction l with
  | nil => exact blameless_pure _
  | cons a l ih =>
    rw [List.forall_mem_cons] at h
    rw [List.mapM_cons]
    exact h.1.bind fun _ _ => (ih h.2).bind fun _ _ => blameless_pure _

end

/-! ### Actions

The same for actions, which carry a state and begin anywhere. -/

/-- An action is blameless wherever it begins. -/
def BlamelessFrom (action : StateT σ (Except DecodeError) α) : Prop := ∀ s, Blameless (action s)

/-- An action that only returns does not fail. -/
theorem blamelessFrom_pure (a : α) : BlamelessFrom (pure a : StateT σ (Except DecodeError) α) :=
  fun _ => blameless_pure _

/-- An action that fails for another cause is blameless. -/
theorem blamelessFrom_throw {e : DecodeError} (h : ¬ e.isDefect) :
    BlamelessFrom (throw e : StateT σ (Except DecodeError) α) :=
  fun _ => blameless_error h

/-- Looking at the state does not fail. -/
theorem blamelessFrom_get : BlamelessFrom (get : StateT σ (Except DecodeError) σ) :=
  fun s => blameless_pure (s, s)

/-- Changing the state does not fail. -/
theorem blamelessFrom_modify (f : σ → σ) :
    BlamelessFrom (modify f : StateT σ (Except DecodeError) Unit) :=
  fun s => blameless_pure ((), f s)

/-- An action that does not touch the state. -/
theorem blamelessFrom_lift {x : Except DecodeError α} (h : Blameless x) :
    BlamelessFrom (liftM x : StateT σ (Except DecodeError) α) :=
  fun _ => h.bind fun _ _ => blameless_pure _

/-- One action after another. -/
theorem BlamelessFrom.bind {action : StateT σ (Except DecodeError) α}
    {next : α → StateT σ (Except DecodeError) β} (h : BlamelessFrom action)
    (h' : ∀ a, BlamelessFrom (next a)) : BlamelessFrom (action >>= next) :=
  fun s => (h s).bind fun p _ => h' p.1 p.2

/-- An action with a change to its result. -/
theorem BlamelessFrom.map {action : StateT σ (Except DecodeError) α} (h : BlamelessFrom action)
    (f : α → β) : BlamelessFrom (f <$> action) :=
  fun s => (h s).bind fun _ _ => blameless_pure _

/-- What comes after a result that does not touch the state may rely on it. -/
theorem BlamelessFrom.lift_bind {x : Except DecodeError α}
    {next : α → StateT σ (Except DecodeError) β} (h : Blameless x)
    (h' : ∀ a, x = .ok a → BlamelessFrom (next a)) : BlamelessFrom (liftM x >>= next) := by
  intro s
  cases x with
  | error e => exact blameless_error (h e rfl)
  | ok a => exact h' a rfl s

/-! ### Payloads

Payloads are read through a cursor. A read has its own causes, for the end of the payload and for
text that is no text, and they are renamed on the way out; none of them is renamed to a defect. -/

/-- A read fails for what it found. -/
theorem blamelessFrom_read (action : Read α) : BlamelessFrom (liftM action : Decode α) :=
  fun _ => blameless_mapError fun _ _ => Bool.false_ne_true

/-- A read, and what comes after it. -/
theorem BlamelessFrom.read_bind (action : Read α) {next : α → Decode β}
    (h : ∀ a, BlamelessFrom (next a)) : BlamelessFrom (liftM action >>= next) :=
  (blamelessFrom_read action).bind h

namespace Decode

/-- Fields at a position, which may lie behind the payload. -/
theorem blameless_fieldsAt {fields : Decode α} (h : BlamelessFrom fields) (payload : Bytes)
    (position : Nat) : Blameless (fieldsAt payload position fields) :=
  (blameless_mapError fun _ _ => Bool.false_ne_true).bind fun c _ =>
    (h c).bind fun _ _ => blameless_pure _

/-- A name at a position, which may lie behind the payload. -/
theorem blameless_stringAt (payload : Bytes) (position : Nat) :
    Blameless (stringAt payload position) :=
  blameless_mapError fun _ _ => Bool.false_ne_true

/-- Repeating a blameless result is blameless, however often. -/
theorem blameless_repeated {item : Nat → Except DecodeError α} (h : ∀ index, Blameless (item index))
    (index count : Nat) : Blameless (repeated item index count) := by
  induction count generalizing index with
  | zero => exact blameless_pure _
  | succ count ih =>
    exact (h index).bind fun _ _ => (ih (index + 1)).bind fun _ _ => blameless_pure _

/-- Repeating a blameless action is blameless, wherever each repetition begins. -/
theorem blamelessFrom_repeated {item : Nat → StateT σ (Except DecodeError) α}
    (h : ∀ index, BlamelessFrom (item index)) (index count : Nat) :
    BlamelessFrom (repeated item index count) := by
  induction count generalizing index with
  | zero => exact blamelessFrom_pure _
  | succ count ih =>
    exact (h index).bind fun _ => (ih (index + 1)).bind fun _ => blamelessFrom_pure _

end Decode
end ShaderBytecode
