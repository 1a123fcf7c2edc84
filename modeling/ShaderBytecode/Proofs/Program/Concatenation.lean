import ShaderBytecode.Proofs.Program.Relocation

/-!
# Words behind an accepted program

The instructions of an accepted list of words end where the list ends. Words that are put behind it
are therefore decoded as a program of their own, which stands further on:

    entries (a ++ b)  =  entries a ++ entries b, with the places in an error moved by `a.length`

A decoder could see past the end of `a` in one way only, by looking for a length in the second word
of an instruction. The last word of an accepted list never asks for that, since an instruction
without a second word has the length zero there and is refused.

Errors carry the place where they were found, so the right statement about them is not that they
stay the same but that they move with the words.
-/

namespace ShaderBytecode

/-- The instruction with its place, `n` words further on. -/
def Program.Placed.shift (n : Nat) (p : Placed) : Placed := ⟨p.position + n, p.instruction⟩

namespace Run

/-- One run after another, which is carried out only if the first has no fault. -/
def append (r r' : Run ε α) : Run ε α :=
  match r.fault with
  | none => ⟨r.completed ++ r'.completed, r'.fault⟩
  | some _ => r

/-- An instruction in front of a run is in front of both. -/
theorem append_cons (a : α) (r r' : Run ε α) : (cons a r).append r' = cons a (r.append r') := by
  obtain ⟨completed, fault⟩ := r
  cases fault <;> rfl

/-- Behind a run without a fault the other is carried out. -/
theorem append_of_fault_eq_none {r : Run ε α} (h : r.fault = none) (r' : Run ε α) :
    r.append r' = ⟨r.completed ++ r'.completed, r'.fault⟩ := by
  rw [append, h]

end Run

namespace Program

/-! ### A run that begins further on

A run knows its position only to tell where an instruction stands and where an error was found. What
is decoded does not depend on it. -/

/-- The same run, `n` words further on. -/
def shiftRun (n : Nat) (r : Run DecodeError Placed) : Run DecodeError Placed :=
  ⟨r.completed.map (Placed.shift n), r.fault.map (DecodeError.shift n)⟩

/-- The first instruction of a run moves as all the others do. -/
theorem shiftRun_cons (n : Nat) (p : Placed) (r : Run DecodeError Placed) :
    shiftRun n (.cons p r) = .cons (p.shift n) (shiftRun n r) := rfl

/-- A run that begins further on is the same run. -/
theorem instructionsFrom_add (position n : Nat) (words : List UInt32) :
    instructionsFrom (position + n) words = shiftRun n (instructionsFrom position words) := by
  fun_induction instructionsFrom position words with
  | case1 position => rw [instructionsFrom]; rfl
  | case2 position token rest e he =>
    -- an error in a length has no place, so it does not move
    have hshift : e.shift n = e := Except.error.inj (he ▸ placeless_instructionLength token rest n)
    rw [instructionsFrom, he]
    show Run.stopped e = ⟨[], some (e.shift n)⟩
    rw [hshift]
    rfl
  | case3 position token rest length hlength hfits e he =>
    rw [instructionsFrom, hlength]
    simp only [hfits, and_self, ↓reduceDIte, instruction_add, he]
    rfl
  | case4 position token rest length hlength hfits i hi ih =>
    rw [instructionsFrom, hlength]
    simp only [hfits, and_self, ↓reduceDIte, instruction_add, hi, shiftRun_cons, ← ih,
      Nat.add_right_comm position n length]
    rfl
  | case5 position token rest length hlength hfits =>
    rw [instructionsFrom, hlength]
    simp only [hfits, ↓reduceDIte, Nat.add_right_comm position n]
    rw [Nat.add_right_comm (position + rest.length) n]
    rfl

/-! ### Words behind the instructions

The run over the front is followed to its end, and each instruction is cut off within the front.
What is behind the front is seen by nothing but the run that begins there. -/

/-- The length of an instruction that is accepted is told by its own words. -/
theorem instructionLength_append {token : UInt32} {rest : List UInt32} {length : Nat}
    (h : instructionLength token rest = .ok length) (hpos : 0 < length) (b : List UInt32) :
    instructionLength token (rest ++ b) = .ok length := by
  cases rest with
  | cons w ws => exact h
  | nil =>
    -- without a second word the length field of the first must tell, or the length would be zero
    simp only [instructionLength, Token.bits_eq_ok (by decide : 0 < 11 ∧ 0 + 11 ≤ 32),
      Token.bits_eq_ok (by decide : 0 < 7 ∧ 24 + 7 ≤ 32), Bind.bind, Except.bind] at h ⊢
    split at h
    · cases h
      exact absurd hpos (Nat.lt_irrefl 0)
    · next hfield => rw [if_neg hfield, ← h]

/-- Words behind an accepted program are decoded as a program of their own. -/
theorem instructionsFrom_append {position : Nat} {a : List UInt32}
    (h : (instructionsFrom position a).fault = none) (b : List UInt32) :
    instructionsFrom position (a ++ b)
      = (instructionsFrom position a).append (instructionsFrom (position + a.length) b) := by
  fun_induction instructionsFrom position a with
  | case1 position => rfl
  -- a run that stopped has a fault
  | case2 => cases h
  | case3 => cases h
  | case5 => cases h
  | case4 position token rest length hlength hfits i hi ih =>
    -- the instruction ends within `a`, so its words and what follows them are cut off as before
    obtain ⟨hpos, hle⟩ := hfits
    have hrest : length - 1 ≤ rest.length := by omega
    have hfits' : 0 < length ∧ length ≤ (rest ++ b).length + 1 := by
      rw [List.length_append]
      omega
    have hend : position + length + (rest.drop (length - 1)).length
        = position + (token :: rest).length := by
      rw [List.length_drop, List.length_cons]
      omega
    rw [List.cons_append, instructionsFrom, instructionLength_append hlength hpos]
    simp only [dif_pos hfits', List.take_append_of_le_length hrest,
      List.drop_append_of_le_length hrest, hi]
    rw [ih h, hend, Run.append_cons]

/-- The instructions of an accepted program, with a second list of words behind it. -/
theorem decodeInstructions_append {a : List UInt32} (h : (decodeInstructions a).fault = none)
    (b : List UInt32) :
    decodeInstructions (a ++ b)
      = (decodeInstructions a).append (shiftRun a.length (decodeInstructions b)) := by
  unfold decodeInstructions
  rw [instructionsFrom_append h, instructionsFrom_add]

/-- Instructions are accepted if the run has no fault. -/
theorem entries_eq_ok_iff {words : List UInt32} {l : List Instruction} :
    entries words = .ok l ↔ (decodeInstructions words).fault = none ∧
      (decodeInstructions words).completed.map (·.instruction) = l := by
  unfold entries
  obtain ⟨completed, fault⟩ := decodeInstructions words
  cases fault <;> simp [Run.result, Except.map]

/-- They are refused for the fault of the run. -/
theorem entries_eq_error_iff {words : List UInt32} {e : DecodeError} :
    entries words = .error e ↔ (decodeInstructions words).fault = some e := by
  unfold entries
  obtain ⟨completed, fault⟩ := decodeInstructions words
  cases fault <;> simp [Run.result, Except.map]

/-- **Programs can be put one behind the other.** What is decoded of an accepted list of words does
not depend on the words behind it, and these are decoded, or refused, as if they stood alone, only
further on. -/
theorem entries_append {a b : List UInt32} {xs : List Instruction} (h : entries a = .ok xs) :
    (∀ ys, entries b = .ok ys → entries (a ++ b) = .ok (xs ++ ys)) ∧
    (∀ e, entries b = .error e → entries (a ++ b) = .error (e.shift a.length)) ∧
    (decodeInstructions (a ++ b)).completed = (decodeInstructions a).completed
      ++ (decodeInstructions b).completed.map (Placed.shift a.length) := by
  obtain ⟨hfault, rfl⟩ := entries_eq_ok_iff.1 h
  -- the entries of the second list are moved, and so is its fault
  have happend : decodeInstructions (a ++ b)
      = ⟨(decodeInstructions a).completed
          ++ (decodeInstructions b).completed.map (Placed.shift a.length),
        (decodeInstructions b).fault.map (DecodeError.shift a.length)⟩ := by
    rw [decodeInstructions_append hfault, Run.append_of_fault_eq_none hfault]
    rfl
  refine ⟨?_, ?_, ?_⟩
  · intro ys hb
    obtain ⟨hnone, rfl⟩ := entries_eq_ok_iff.1 hb
    rw [entries_eq_ok_iff, happend, hnone]
    refine ⟨rfl, ?_⟩
    rw [List.map_append, List.map_map]
    rfl
  · intro e hb
    rw [entries_eq_error_iff] at hb ⊢
    rw [happend, hb]
    rfl
  · rw [happend]

/-- Custom data of three words, and an operation whose length stands in its second word. -/
def longForms : List UInt32 := [53, 3, 7, 58, 2]

/-- An operation whose operand needs a word more than there is. -/
def cutOperand : List UInt32 := [0x02000036, 0x00100000]

/-- Behind five words, an operand is missed five words further on. -/
theorem entries_append_cutOperand :
    (∃ xs, entries longForms = .ok xs ∧ xs.length = 2) ∧
      entries cutOperand = .error (.operandOverrun 4) ∧
      entries (longForms ++ cutOperand) = .error (.operandOverrun 9) := by
  have hfault : (decodeInstructions longForms).fault = none := by decide +kernel
  have hlength : (decodeInstructions longForms).completed.length = 2 := by decide +kernel
  have hentries := entries_eq_ok_iff.2 ⟨hfault, rfl⟩
  have hcut : entries cutOperand = .error (.operandOverrun 4) :=
    entries_eq_error_iff.2 (by decide +kernel)
  refine ⟨⟨_, hentries, by rw [List.length_map, hlength]⟩, hcut, ?_⟩
  exact (entries_append hentries).2.1 _ hcut

end Program
end ShaderBytecode
