import ShaderBytecode.Error

/-!
# Tokens of a program

A program is a list of words. A word packs several bit fields, which `Token.bits` extracts; asking
for bits outside the word is refused. The words of one instruction are read one after the other from
a `TokenStream`, which knows where in the program it stands so that a failure can name the place.

`Advances n` says that a reading action, when it succeeds, has used up at least `n` words. It is
what makes the loop over the operands of an instruction end.
-/

namespace ShaderBytecode

namespace Token

/-- The `width` bits of a word from bit `shift` on. -/
def bits (shift width : Nat) (w : UInt32) : Except DecodeError Nat :=
  if 0 < width ∧ shift + width ≤ 32 then .ok ((w.toNat >>> shift) % (1 <<< width))
  else .error (.bitRange shift width)

def bit (index : Nat) (w : UInt32) : Except DecodeError Bool :=
  (bits index 1 w).map (· != 0)

/-- The highest bit, which says that an extension follows. -/
def isExtended (w : UInt32) : Bool := w.toNat.testBit 31

theorem bits_eq_ok {shift width : Nat} (h : 0 < width ∧ shift + width ≤ 32) (w : UInt32) :
    bits shift width w = .ok ((w.toNat >>> shift) % (1 <<< width)) := if_pos h

end Token

structure TokenStream where
  words : List UInt32
  position : Nat

abbrev TokenRead := StateT TokenStream (Except DecodeError)

namespace TokenRead

def word : TokenRead UInt32 := fun s =>
  match s.words with
  | w :: words => .ok (w, ⟨words, s.position + 1⟩)
  | [] => .error (.operandOverrun s.position)

/-- A number of 64 bits that takes two words, the low one first. -/
def wide : TokenRead UInt64 := do
  let low ← word
  let high ← word
  return low.toUInt64 + high.toUInt64 <<< 32

def words : (count : Nat) → TokenRead (List UInt32)
  | 0 => pure []
  | count + 1 => do
    let w ← word
    return w :: (← words count)

def wides : (count : Nat) → TokenRead (List UInt64)
  | 0 => pure []
  | count + 1 => do
    let w ← wide
    return w :: (← wides count)

/-! ### Using up words -/

/-- When `action` succeeds it leaves at least `n` words fewer than it found. -/
def Advances (n : Nat) (action : TokenRead α) : Prop :=
  ∀ s a s', action s = .ok (a, s') → s'.words.length + n ≤ s.words.length

theorem Advances.mono {m n : Nat} {action : TokenRead α} (h : Advances n action) (hmn : m ≤ n) :
    Advances m action := fun s a s' e => by have := h s a s' e; omega

theorem advances_pure (a : α) : Advances 0 (pure a : TokenRead α) := by
  intro s b s' e
  cases e
  exact Nat.le_refl _

theorem advances_throw (n : Nat) (e : DecodeError) : Advances n (throw e : TokenRead α) := by
  intro s a s' h
  cases h

/-- An action that does not touch the words. -/
theorem advances_lift (x : Except DecodeError α) : Advances 0 (liftM x : TokenRead α) := by
  intro s a s' h
  cases x with
  | error e => cases h
  | ok b => cases h; exact Nat.le_refl _

theorem Advances.bind {m n : Nat} {action : TokenRead α} {next : α → TokenRead β}
    (h : Advances m action) (h' : ∀ a, Advances n (next a)) :
    Advances (m + n) (action >>= next) := by
  intro s b s' e
  simp only [Bind.bind, StateT.bind, Except.bind] at e
  cases ha : action s with
  | error err => rw [ha] at e; cases e
  | ok p =>
    rw [ha] at e
    have h₁ := h s p.1 p.2 ha
    have h₂ := h' p.1 p.2 b s' e
    omega

theorem Advances.bind_zero {action : TokenRead α} {next : α → TokenRead β}
    (h : Advances 0 action) (h' : ∀ a, Advances 0 (next a)) : Advances 0 (action >>= next) :=
  Advances.bind h h'

theorem advances_word : Advances 1 word := by
  intro s a s' h
  unfold word at h
  split at h
  · next w ws hw => cases h; simp [hw]
  · cases h

theorem advances_wide : Advances 2 wide :=
  advances_word.bind fun _ => advances_word.bind fun _ => advances_pure _

theorem advances_words : ∀ count, Advances 0 (words count)
  | 0 => advances_pure _
  | count + 1 => (advances_word.mono (Nat.zero_le _)).bind_zero fun _ =>
      (advances_words count).bind_zero fun _ => advances_pure _

theorem advances_wides : ∀ count, Advances 0 (wides count)
  | 0 => advances_pure _
  | count + 1 => (advances_wide.mono (Nat.zero_le _)).bind_zero fun _ =>
      (advances_wides count).bind_zero fun _ => advances_pure _

end TokenRead
end ShaderBytecode
