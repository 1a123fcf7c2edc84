import ShaderBytecode.Proofs.Bytes.Writing
import ShaderBytecode.Uniform

/-!
# Runs of writes into a uniform block

A block is filled by a run of calls, each of which writes a value into the variable of a name or is
refused. What a run can do to the contents follows from what one call can do:

    set_eq_ok_iff           : block.set name v = .ok … ↔ the variable is there and both sizes fit
    isWritten_writeElements : the words of a value that fits stand at their places, and every other
                              byte is as it was
    Mirrors.run             : after any run a block has the size and the variables of its buffer

A value is checked as a whole, by the position behind its last word, and then written element by
element. The elements of a value have equally many words, at most a row of them, so the check bounds
every single element (`element_le_packedLength`) and no element reaches into the next
(`extract_writeElements`).

A variable is found by its name, and two variables may share one. The block keeps a table from names
to places, into which the variables are entered in their order, so that the last variable of a name
is the one that counts (`IsNamed`). Since RDEF variables are kept in the order of their offsets,
that is also the one that begins last.
-/

namespace ShaderBytecode

/-! ### Elements of a value

A value is a list of elements, and an element a list of words. That all elements of a value have the
same width makes the packed length a linear expression in the number of elements. -/

namespace UniformValue

theorem stride_eq : stride = 16 := rfl

/-- The number of words in each element. -/
def width : UniformValue → Nat
  | float _ | int _ | uint _ | floatArray _ | intArray _ => 1
  | vec2 _ _ => 2
  | vec3 _ _ _ => 3
  | vec4 _ | ivec4 _ | uvec4 _ | mat4 _ _ _ _ | vec4Array _ => 4

/-- A word of an element, if the value has it. -/
def word? (v : UniformValue) (element index : Nat) : Option UInt32 :=
  v.elements[element]?.bind (·[index]?)

variable {v : UniformValue}

/-- The elements of a value have equally many words. -/
theorem length_of_mem_elements {ws : List UInt32} (h : ws ∈ v.elements) :
    ws.length = v.width := by
  cases v with
  | floatArray | vec4Array | intArray =>
    obtain ⟨x, -, rfl⟩ := List.mem_map.1 h
    rfl
  | mat4 a b c d =>
    simp only [elements, List.mem_cons, List.not_mem_nil, or_false] at h
    rcases h with rfl | rfl | rfl | rfl <;> rfl
  | _ =>
    rw [List.mem_singleton.1 h]
    rfl

/-- An element does not reach beyond its row. -/
theorem four_mul_width_le (v : UniformValue) : 4 * v.width ≤ stride := by
  rw [stride_eq]
  cases v <;> simp only [width] <;> omega

/-- A value ends behind the last word of its last element. -/
theorem packedLength_eq (h : v.elements ≠ []) :
    v.packedLength = stride * (v.elements.length - 1) + 4 * v.width := by
  rw [packedLength, List.getLast?_eq_some_getLast h]
  dsimp only
  rw [length_of_mem_elements (List.getLast_mem h)]

/-- No element reaches beyond the end of its value. -/
theorem element_le_packedLength {i : Nat} {ws : List UInt32} (h : v.elements[i]? = some ws) :
    stride * i + 4 * ws.length ≤ v.packedLength := by
  have hmem : ws ∈ v.elements := List.mem_of_getElem? h
  obtain ⟨hi, -⟩ := List.getElem?_eq_some_iff.1 h
  rw [packedLength_eq (List.ne_nil_of_mem hmem), length_of_mem_elements hmem]
  have hrows : stride * i ≤ stride * (v.elements.length - 1) := Nat.mul_le_mul_left _ (by omega)
  omega

theorem word?_eq_some_iff {i j : Nat} {w : UInt32} :
    v.word? i j = some w ↔ ∃ ws, v.elements[i]? = some ws ∧ ws[j]? = some w :=
  Option.bind_eq_some_iff

end UniformValue

/-! ### Words within a buffer -/

namespace Bytes

/-- A word of a piece is a word of the buffer that the piece was taken from. -/
theorem wordAt_extract_add {data : Bytes} {first last i : Nat} (h : first + i + 4 ≤ last) :
    wordAt (data.extract first last) i = data.wordAt (first + i) := by
  rw [wordAt, wordAt, Array.extract_extract, Nat.min_eq_left (by omega), ← Nat.add_assoc]

end Bytes

namespace UniformBlock

open UniformValue (stride)

@[simp] theorem size_wordBytes (ws : List UInt32) : (wordBytes ws).size = 4 * ws.length := by
  rw [wordBytes, Bytes.size_foldl_ofWord]
  exact Nat.zero_add _

/-- A word that is written out is read back from its place. -/
theorem wordAt_wordBytes {ws : List UInt32} {j : Nat} {w : UInt32} (h : ws[j]? = some w) :
    (wordBytes ws).wordAt (4 * j) = w := by
  obtain ⟨hj, rfl⟩ := List.getElem?_eq_some_iff.1 h
  have hword := @Bytes.wordAt_foldl_ofWord #[] ws j hj
  rwa [Array.size_empty, Nat.zero_add] at hword

/-! ### Writing elements

Writing goes from the first element to the last, so the inductions below are on the list of
elements, with the buffer and the offset generalized: what has been written becomes the buffer for
the rest. `Covered` says which positions are written at all, whatever stands in the elements. -/

/-- A position belongs to an element that is written from `offset` on. -/
def Covered (offset : Nat) (elements : List (List UInt32)) (k : Nat) : Prop :=
  ∃ i ws, elements[i]? = some ws ∧ offset + stride * i ≤ k ∧
    k < offset + stride * i + 4 * ws.length

/-- A position belongs to the first element or to one of those behind it. -/
theorem covered_cons {offset : Nat} {ws : List UInt32} {rest : List (List UInt32)} {k : Nat} :
    Covered offset (ws :: rest) k ↔
      (offset ≤ k ∧ k < offset + 4 * ws.length) ∨ Covered (offset + stride) rest k := by
  constructor
  · rintro ⟨i, ws', hi, hle, hlt⟩
    cases i with
    | zero =>
      -- element zero is the first one, and the others move down by one
      cases hi
      exact .inl ⟨by omega, by omega⟩
    | succ i =>
      rw [Nat.mul_succ] at hle hlt
      exact .inr ⟨i, ws', hi, by omega, by omega⟩
  · rintro (⟨hle, hlt⟩ | ⟨i, ws', hi, hle, hlt⟩)
    · exact ⟨0, ws, rfl, by omega, by omega⟩
    · refine ⟨i + 1, ws', hi, ?_, ?_⟩ <;> rw [Nat.mul_succ] <;> omega

@[simp] theorem size_writeElements (data : Bytes) (offset : Nat) (elements : List (List UInt32)) :
    (writeElements data offset elements).size = data.size := by
  induction elements generalizing data offset with
  | nil => rfl
  | cons ws rest ih => rw [writeElements, ih, Bytes.size_overwrite]

/-- Overwriting with the bytes of an element changes no position outside of it. -/
theorem getElem?_overwrite_wordBytes {data : Bytes} {offset k : Nat} {ws : List UInt32}
    (h : ¬ (offset ≤ k ∧ k < offset + 4 * ws.length)) :
    (Bytes.overwrite data offset (wordBytes ws))[k]? = data[k]? := by
  rw [Bytes.getElem?_overwrite]
  by_cases hk : offset ≤ k
  · have hbehind : (wordBytes ws)[k - offset]? = none :=
      Array.getElem?_eq_none (by rw [size_wordBytes]; omega)
    simp [hbehind]
  · simp [hk]

/-- A position that belongs to no element is as it was. -/
theorem getElem?_writeElements {data : Bytes} {offset k : Nat} {elements : List (List UInt32)}
    (h : ¬ Covered offset elements k) : (writeElements data offset elements)[k]? = data[k]? := by
  induction elements generalizing data offset with
  | nil => rfl
  | cons ws rest ih =>
    rw [covered_cons, not_or] at h
    rw [writeElements, ih h.2, getElem?_overwrite_wordBytes h.1]

/-- Every element is found where it was written, if none reaches beyond its row or the end of the
buffer. -/
theorem extract_writeElements {data : Bytes} {offset i : Nat} {elements : List (List UInt32)}
    {ws : List UInt32} (hrow : ∀ ws ∈ elements, 4 * ws.length ≤ stride)
    (hi : elements[i]? = some ws) (hend : offset + stride * i + 4 * ws.length ≤ data.size) :
    (writeElements data offset elements).extract (offset + stride * i)
      (offset + stride * i + 4 * ws.length) = wordBytes ws := by
  induction elements generalizing data offset i with
  | nil => cases hi
  | cons ws' rest ih =>
    rw [List.forall_mem_cons] at hrow
    rw [writeElements]
    cases i with
    | zero =>
      cases hi
      have hsize := size_wordBytes ws
      rw [Nat.mul_zero, Nat.add_zero, ← hsize] at hend ⊢
      apply Bytes.extract_eq_of_getElem?
      · intro k hk
        -- the elements behind it begin in later rows, so they leave its bytes alone
        have hapart : ¬ Covered (offset + stride) rest (offset + k) := by
          rintro ⟨j, _, -, hle, -⟩
          exact absurd hrow.1 (by omega)
        rw [getElem?_writeElements hapart, Bytes.getElem?_overwrite,
          Array.getElem?_eq_getElem (by omega : offset + k < data.size)]
        simp [Array.getElem?_eq_getElem hk]
      · rwa [size_writeElements, Bytes.size_overwrite]
    -- a later element of the list is an earlier one of the rest, which begins a stride further on
    | succ i =>
      have hplace : offset + stride * (i + 1) = offset + stride + stride * i := by
        rw [Nat.mul_succ]
        omega
      rw [hplace] at hend ⊢
      exact ih hrow.2 hi (by rwa [Bytes.size_overwrite])

/-! ### One call

What a call does is told without the functions that do it: which variable is meant (`IsNamed`),
which words stand where (`IsWritten`), and between which positions they are (`WordsWithin`). -/

/-- The first byte of a word of a value that is written from `offset` on. -/
def wordPosition (offset element index : Nat) : Nat := offset + stride * element + 4 * index

/-- The variable of a name: of several the last one. -/
structure IsNamed (b : ConstantBuffer) (name : String) (v : Variable) : Prop where
  name_eq : v.name = name
  last : ∃ before after, b.vars = before ++ v :: after ∧ ∀ w ∈ after, w.name ≠ name

/-- The variables of a buffer are in the ascending order of their offsets. -/
def Ascending (b : ConstantBuffer) : Prop := b.vars.Pairwise fun v w => v.offset ≤ w.offset

/-- Where the variables are kept in order, the last one of a name has the greatest offset. -/
theorem IsNamed.offset_le {b : ConstantBuffer} {name : String} {v : Variable}
    (h : IsNamed b name v) (hascending : Ascending b) :
    ∀ w ∈ b.vars, w.name = name → w.offset ≤ v.offset := by
  intro w hw hwname
  obtain ⟨before, after, hvars, hother⟩ := h.last
  rw [Ascending, hvars] at hascending
  rw [hvars] at hw
  obtain ⟨-, -, hbefore⟩ := List.pairwise_append.1 hascending
  rcases List.mem_append.1 hw with hw | hw
  · exact hbefore w hw v List.mem_cons_self
  · -- those behind the last one of the name have other names
    rcases List.mem_cons.1 hw with rfl | hw
    · exact UInt32.le_refl _
    · exact absurd hwname (hother w hw)

/-- Writing a value from `offset` on has turned `data` into `data'`. -/
structure IsWritten (data : Bytes) (offset : Nat) (value : UniformValue) (data' : Bytes) :
    Prop where
  /-- Every word of the value stands at its place, low byte first. -/
  word : ∀ i j w, value.word? i j = some w →
    data'.extract (wordPosition offset i j) (wordPosition offset i j + 4) = Bytes.ofWord w
  /-- Every other byte is as it was. -/
  other : ∀ k, (∀ i j w, value.word? i j = some w →
      ¬ (wordPosition offset i j ≤ k ∧ k < wordPosition offset i j + 4)) →
    data'[k]? = data[k]?

/-- All words of a value lie between two positions. -/
def WordsWithin (value : UniformValue) (offset first last : Nat) : Prop :=
  ∀ i j w, value.word? i j = some w →
    first ≤ wordPosition offset i j ∧ wordPosition offset i j + 4 ≤ last

/-- The packed length is an upper end for all words of a value. -/
theorem wordsWithin_packedLength (value : UniformValue) (offset : Nat) :
    WordsWithin value offset offset (offset + value.packedLength) := by
  intro i j w h
  obtain ⟨ws, hi, hj⟩ := UniformValue.word?_eq_some_iff.1 h
  obtain ⟨hj, -⟩ := List.getElem?_eq_some_iff.1 hj
  have hlast := UniformValue.element_le_packedLength hi
  unfold wordPosition
  omega

theorem WordsWithin.mono {value : UniformValue} {offset first last last' : Nat}
    (h : WordsWithin value offset first last) (hle : last ≤ last') :
    WordsWithin value offset first last' := by
  intro i j w hw
  obtain ⟨hfirst, hlast⟩ := h i j w hw
  exact ⟨hfirst, Nat.le_trans hlast hle⟩

/-- A value that fits into the buffer is written word by word. -/
theorem isWritten_writeElements {data : Bytes} {offset : Nat} {value : UniformValue}
    (h : offset + value.packedLength ≤ data.size) :
    IsWritten data offset value (writeElements data offset value.elements) where
  word := by
    intro i j w hw
    obtain ⟨ws, hi, hj⟩ := UniformValue.word?_eq_some_iff.1 hw
    obtain ⟨hlt, -⟩ := List.getElem?_eq_some_iff.1 hj
    have hlast := UniformValue.element_le_packedLength hi
    have hrow : ∀ ws ∈ value.elements, 4 * ws.length ≤ stride := fun ws hws => by
      rw [UniformValue.length_of_mem_elements hws]
      exact value.four_mul_width_le
    have helement := @extract_writeElements data offset _ _ _ hrow hi (by omega)
    -- the word within its element, then the element within the buffer
    have hword := wordAt_wordBytes hj
    rw [← helement, Bytes.wordAt_extract_add (by omega)] at hword
    rw [wordPosition, ← Bytes.ofWord_wordAt (by rw [size_writeElements]; omega), hword]
  other := by
    intro k hk
    apply getElem?_writeElements
    rintro ⟨i, ws, hi, hle, hlt⟩
    -- the word that the byte would belong to
    have hj : (k - (offset + stride * i)) / 4 < ws.length := by omega
    refine hk i _ _ (UniformValue.word?_eq_some_iff.2
      ⟨ws, hi, List.getElem?_eq_getElem hj⟩) ?_
    unfold wordPosition
    omega

/-- Looking from the end finds the last variable of a name. -/
theorem isNamed_iff {b : ConstantBuffer} {name : String} {v : Variable} :
    IsNamed b name v ↔ b.vars.reverse.find? (·.name == name) = some v := by
  -- what is in front of the find in the reversed list is behind it in the list
  have hreverse : (∃ after before, b.vars.reverse = after ++ v :: before ∧
      ∀ w ∈ after, w.name ≠ name) ↔
      ∃ before after, b.vars = before ++ v :: after ∧ ∀ w ∈ after, w.name ≠ name := by
    constructor
    · rintro ⟨after, before, hvars, hother⟩
      rw [List.reverse_eq_iff, List.reverse_append, List.reverse_cons, List.append_assoc] at hvars
      exact ⟨before.reverse, after.reverse, by simpa using hvars, by simpa using hother⟩
    · rintro ⟨before, after, hvars, hother⟩
      exact ⟨after.reverse, before.reverse, by simp [hvars], by simpa using hother⟩
  simp only [List.find?_eq_some_iff_append, beq_iff_eq, Bool.not_eq_true', beq_eq_false_iff_ne,
    hreverse]
  exact ⟨fun ⟨hname, hlast⟩ => ⟨hname, hlast⟩, fun ⟨hname, hlast⟩ => ⟨hname, hlast⟩⟩

/-- The slots of the block of a buffer are those of its variables. -/
theorem slot?_eq_some_iff {b : ConstantBuffer} {block : UniformBlock}
    (hslots : block.slots = (ofBuffer b).slots) {name : String} {slot : UniformSlot} :
    block.slot? name = some slot ↔
      ∃ v, IsNamed b name v ∧ slot = ⟨v.name, v.offset.toNat, v.size.toNat⟩ := by
  simp only [slot?, hslots, ofBuffer, ← List.map_reverse, List.find?_map, isNamed_iff,
    Option.map_eq_some_iff]
  exact exists_congr fun v => and_congr Iff.rfl eq_comm

/-- A call succeeds if there is a variable of the name, the value is not larger than it, and the
value does not reach beyond the end of the buffer. -/
theorem set_eq_ok_iff {block block' : UniformBlock} {name : String} {value : UniformValue} :
    block.set name value = .ok block' ↔
      ∃ slot, block.slot? name = some slot ∧ value.packedLength ≤ slot.size ∧
        slot.offset + value.packedLength ≤ block.data.size ∧
        block' = { block with data := writeElements block.data slot.offset value.elements } := by
  unfold set
  cases block.slot? name with
  | none => simp
  | some slot =>
    dsimp only
    split
    · -- the value is larger than its variable
      next h =>
      simp only [reduceCtorEq, Option.some.injEq, false_iff]
      rintro ⟨slot, rfl, hsize, -⟩
      omega
    · split
      · -- the value fits into the variable, and the variable sticks out of the buffer
        next h =>
        simp only [reduceCtorEq, Option.some.injEq, false_iff]
        rintro ⟨slot, rfl, -, hend, -⟩
        omega
      · next hsize hend =>
        simp only [Except.ok.injEq, Option.some.injEq, exists_eq_left', Nat.le_of_not_lt hsize,
          Nat.le_of_not_lt hend, true_and]
        exact eq_comm

/-! ### Runs of calls -/

/-- A call: the name of a variable and the value that is written into it. -/
structure Call where
  name : String
  value : UniformValue
deriving DecidableEq, Repr

/-- The block after a call. A call that is refused leaves it as it was. -/
def afterCall (block : UniformBlock) (call : Call) : UniformBlock :=
  match block.set call.name call.value with
  | .ok next => next
  | .error _ => block

/-- The block after some calls, one after the other. -/
def run (block : UniformBlock) (calls : List Call) : UniformBlock := calls.foldl afterCall block

theorem run_append_singleton (block : UniformBlock) (calls : List Call) (call : Call) :
    run block (calls ++ [call]) = afterCall (run block calls) call :=
  List.foldl_append

/-- A block has the size and the variables of a buffer. -/
structure Mirrors (block : UniformBlock) (b : ConstantBuffer) : Prop where
  size : block.data.size = b.size.toNat
  slots : block.slots = (ofBuffer b).slots

@[simp] theorem size_fillDefault (data : Bytes) (v : Variable) :
    (fillDefault data v).size = data.size := by
  unfold fillDefault
  split
  · exact Bytes.size_overwrite _ _ _
  · rfl

theorem mirrors_ofBuffer (b : ConstantBuffer) : (ofBuffer b).Mirrors b where
  size := by
    have hfill (data : Bytes) (vars : List Variable) :
        (vars.foldl fillDefault data).size = data.size := by
      induction vars generalizing data with
      | nil => rfl
      | cons v vars ih => rw [List.foldl_cons, ih, size_fillDefault]
    exact (hfill _ _).trans Array.size_replicate
  slots := rfl

section

variable {b : ConstantBuffer} {block : UniformBlock}

theorem Mirrors.afterCall (h : block.Mirrors b) (call : Call) :
    (block.afterCall call).Mirrors b := by
  unfold UniformBlock.afterCall
  split
  · next hset =>
    obtain ⟨slot, -, -, -, rfl⟩ := set_eq_ok_iff.1 hset
    exact ⟨by rw [size_writeElements, h.size], h.slots⟩
  · exact h

theorem Mirrors.run (h : block.Mirrors b) (calls : List Call) : (block.run calls).Mirrors b := by
  induction calls generalizing block with
  | nil => exact h
  | cons call calls ih => exact ih (h.afterCall call)

/-- A call succeeds exactly if the value fits into the variable and into the buffer. -/
theorem Mirrors.isOk_set_iff (h : block.Mirrors b) {name : String} {value : UniformValue} :
    (block.set name value).isOk ↔ ∃ v, IsNamed b name v ∧
      value.packedLength ≤ v.size.toNat ∧
      v.offset.toNat + value.packedLength ≤ b.size.toNat := by
  have hok : (block.set name value).isOk ↔ ∃ block', block.set name value = .ok block' := by
    cases block.set name value <;> simp [Except.isOk, Except.toBool]
  simp only [hok, set_eq_ok_iff, slot?_eq_some_iff h.slots, h.size]
  constructor
  · rintro ⟨_, _, ⟨v, hv, rfl⟩, hsize, hend, -⟩
    exact ⟨v, hv, hsize, hend⟩
  · rintro ⟨v, hv, hsize, hend⟩
    exact ⟨_, _, ⟨v, hv, rfl⟩, hsize, hend, rfl⟩

/-- What a call that succeeds does. -/
theorem Mirrors.of_set_eq_ok (h : block.Mirrors b) {name : String} {value : UniformValue}
    {block' : UniformBlock} (hset : block.set name value = .ok block') :
    ∃ v, IsNamed b name v ∧ IsWritten block.data v.offset.toNat value block'.data ∧
      WordsWithin value v.offset.toNat v.offset.toNat (v.offset.toNat + v.size.toNat) ∧
      WordsWithin value v.offset.toNat v.offset.toNat b.size.toNat := by
  obtain ⟨slot, hslot, hsize, hend, rfl⟩ := set_eq_ok_iff.1 hset
  obtain ⟨v, hv, rfl⟩ := (slot?_eq_some_iff h.slots).1 hslot
  have hwithin := wordsWithin_packedLength value v.offset.toNat
  rw [h.size] at hend
  exact ⟨v, hv, isWritten_writeElements (by rwa [h.size]),
    hwithin.mono (Nat.add_le_add_left hsize _), hwithin.mono hend⟩

end

/-! ### Answers -/

/-- What a call is answered: that it has been carried out, or why it is refused. -/
def answer (block : UniformBlock) (call : Call) : Except UniformError Unit :=
  (block.set call.name call.value).map fun _ => ()

/-- The answers to some calls, made one after the other. -/
def answers (block : UniformBlock) : List Call → List (Except UniformError Unit)
  | [] => []
  | call :: calls => block.answer call :: answers (block.afterCall call) calls

/-- A call that is carried out puts new contents into a block. -/
theorem exists_afterCall_eq (block : UniformBlock) (call : Call) :
    ∃ data : Bytes, data.size = block.data.size ∧
      block.afterCall call = { block with data := data } := by
  unfold afterCall
  split
  · next hset =>
    obtain ⟨slot, -, -, -, rfl⟩ := set_eq_ok_iff.1 hset
    exact ⟨_, size_writeElements _ _ _, rfl⟩
  · exact ⟨block.data, rfl, rfl⟩

/-- A refused call leaves the block as it was. -/
theorem afterCall_of_answer_eq_error {block : UniformBlock} {call : Call} {e : UniformError}
    (h : block.answer call = .error e) : block.afterCall call = block := by
  unfold answer at h
  unfold afterCall
  cases hset : block.set call.name call.value with
  | ok block' =>
    rw [hset] at h
    cases h
  | error e' => rfl

/-- What a call that is not refused writes. -/
theorem afterCall_of_answer_eq_ok {block : UniformBlock} {call : Call}
    (h : block.answer call = .ok ()) :
    ∃ slot, block.slot? call.name = some slot ∧ call.value.packedLength ≤ slot.size ∧
      block.afterCall call
        = { block with data := writeElements block.data slot.offset call.value.elements } := by
  unfold answer at h
  unfold afterCall
  cases hset : block.set call.name call.value with
  | ok block' =>
    obtain ⟨slot, hslot, hsize, -, rfl⟩ := set_eq_ok_iff.1 hset
    exact ⟨slot, hslot, hsize, rfl⟩
  | error e =>
    rw [hset] at h
    cases h

end UniformBlock
end ShaderBytecode
