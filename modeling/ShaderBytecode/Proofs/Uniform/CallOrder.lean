import Mathlib.Data.List.Pairwise
import ShaderBytecode.Proofs.Uniform.InPlace

/-!
# Calls in any order

Whether a call is refused depends on the names and places of the variables and on the size of the
buffer, and no call changes any of these, so a call has the same answer whatever calls came before:

    answers_eq : block.answers calls = calls.map block.answer

What a call writes does not reach out of its variable. So the bytes that two calls write are apart
if the variables are, and such calls may change places (`afterCall_comm`). A permutation of calls is
made of such changes:

    run_perm : calls.Perm calls' → block.run calls = block.run calls'
-/

namespace ShaderBytecode

/-- A byte of a buffer belongs to a variable. -/
def Variable.Holds (v : Variable) (k : Nat) : Prop :=
  v.offset.toNat ≤ k ∧ k < v.offset.toNat + v.size.toNat

/-- No byte belongs to both of two variables. -/
def Variable.ApartFrom (v w : Variable) : Prop := ∀ k, v.Holds k → ¬ w.Holds k

instance : Std.Symm Variable.ApartFrom where
  symm _ _ h k hw hv := h k hv hw

namespace UniformBlock

/-! ### Elements that lie apart

Positions are compared, not ranges: two elements may share a row and lie apart, where an array ends
and a variable begins behind it. -/

/-- What writing leaves at a position depends on the bytes that were there and on nothing around
it. -/
theorem getElem?_writeElements_congr {data data' : Bytes} {k : Nat} (h : data[k]? = data'[k]?)
    (offset : Nat) (elements : List (List UInt32)) :
    (writeElements data offset elements)[k]? = (writeElements data' offset elements)[k]? := by
  induction elements generalizing data data' offset with
  | nil => exact h
  | cons ws rest ih =>
    rw [writeElements, writeElements]
    apply ih
    rw [Bytes.getElem?_overwrite, Bytes.getElem?_overwrite, h]

/-- Elements that cover no common position may be written in either order. -/
theorem writeElements_comm (data : Bytes) {offset offset' : Nat}
    {elements elements' : List (List UInt32)}
    (h : ∀ k, Covered offset elements k → ¬ Covered offset' elements' k) :
    writeElements (writeElements data offset elements) offset' elements'
      = writeElements (writeElements data offset' elements') offset elements := by
  apply Array.ext_getElem?
  intro k
  by_cases hk : Covered offset elements k
  · -- a position of the one is none of the other, so the other leaves it
    have hk' : ¬ Covered offset' elements' k := h k hk
    rw [getElem?_writeElements hk']
    exact getElem?_writeElements_congr (getElem?_writeElements hk').symm offset elements
  · rw [getElem?_writeElements hk]
    exact getElem?_writeElements_congr (getElem?_writeElements hk) offset' elements'

/-- The elements of a value do not reach out of a slot that the value fits into. -/
theorem Covered.inside {offset size : Nat} {value : UniformValue} {k : Nat}
    (h : Covered offset value.elements k) (hsize : value.packedLength ≤ size) :
    offset ≤ k ∧ k < offset + size := by
  obtain ⟨i, ws, hi, hle, hlt⟩ := h
  have hlast := UniformValue.element_le_packedLength hi
  exact ⟨by omega, by omega⟩

/-! ### Answers

A call is refused by its name, by its size or by the end of the bytes. None of these changes, so the
answer is one of the block as it was made. -/

/-- An answer does not depend on the contents of a block. -/
theorem answer_withData (block : UniformBlock) {data : Bytes} (h : data.size = block.data.size)
    (call : Call) : { block with data := data }.answer call = block.answer call := by
  have hslot : { block with data := data }.slot? call.name = block.slot? call.name := rfl
  unfold answer set
  rw [hslot]
  cases block.slot? call.name with
  | none => rfl
  | some slot =>
    dsimp only
    rw [h]
    split
    · rfl
    · split <;> rfl

theorem answer_afterCall (block : UniformBlock) (earlier call : Call) :
    (block.afterCall earlier).answer call = block.answer call := by
  obtain ⟨data, hsize, hblock⟩ := exists_afterCall_eq block earlier
  rw [hblock]
  exact answer_withData block hsize call

/-- A call has the same answer whatever calls came before. -/
theorem answers_eq (block : UniformBlock) (calls : List Call) :
    block.answers calls = calls.map block.answer := by
  induction calls generalizing block with
  | nil => rfl
  | cons call calls ih =>
    rw [answers, ih, List.map_cons]
    congr 1
    exact List.map_congr_left fun later _ => answer_afterCall block call later

/-! ### Calls that change places

For two calls there are four cases. A call that is refused changes nothing, and of two that are
carried out the bytes are those of two variables. -/

section

variable {b : ConstantBuffer} {block : UniformBlock}

/-- The variables that two names stand for have no byte in common. -/
theorem IsNamed.apartFrom (hapart : b.vars.Pairwise Variable.ApartFrom) {name name' : String}
    {v v' : Variable} (hv : IsNamed b name v) (hv' : IsNamed b name' v') (hne : name ≠ name') :
    v.ApartFrom v' := by
  have hmem {name : String} {v : Variable} (hv : IsNamed b name v) : v ∈ b.vars := by
    obtain ⟨before, after, hvars, -⟩ := hv.last
    rw [hvars]
    exact List.mem_append_right _ List.mem_cons_self
  refine hapart.forall (hmem hv) (hmem hv') ?_
  rintro rfl
  exact hne (hv.name_eq.symm.trans hv'.name_eq)

/-- Calls that go to different variables may change places. -/
theorem Mirrors.afterCall_comm (h : block.Mirrors b)
    (hapart : b.vars.Pairwise Variable.ApartFrom) {call call' : Call}
    (hne : call.name ≠ call'.name) :
    (block.afterCall call).afterCall call' = (block.afterCall call').afterCall call := by
  -- neither call changes the answer to the other
  have hanswer : (block.afterCall call').answer call = block.answer call :=
    answer_afterCall block call' call
  have hanswer' : (block.afterCall call).answer call' = block.answer call' :=
    answer_afterCall block call call'
  cases hcall : block.answer call with
  | error e =>
    rw [afterCall_of_answer_eq_error hcall,
      afterCall_of_answer_eq_error (hanswer.trans hcall)]
  | ok _ =>
    cases hcall' : block.answer call' with
    | error e =>
      rw [afterCall_of_answer_eq_error hcall',
        afterCall_of_answer_eq_error (hanswer'.trans hcall')]
    | ok _ =>
      obtain ⟨slot, hslot, hsize, hafter⟩ := afterCall_of_answer_eq_ok hcall
      obtain ⟨slot', hslot', hsize', hafter'⟩ := afterCall_of_answer_eq_ok hcall'
      obtain ⟨last, hlast, -, hboth⟩ := afterCall_of_answer_eq_ok (hanswer'.trans hcall')
      obtain ⟨last', hlast', -, hboth'⟩ := afterCall_of_answer_eq_ok (hanswer.trans hcall)
      rw [hafter] at hlast hboth
      rw [hafter'] at hlast' hboth'
      cases hslot'.symm.trans hlast
      cases hslot.symm.trans hlast'
      -- the slots of the two names, and the variables they stand for
      obtain ⟨v, hv, rfl⟩ := (slot?_eq_some_iff h.slots).1 hslot
      obtain ⟨v', hv', rfl⟩ := (slot?_eq_some_iff h.slots).1 hslot'
      have hcovered : ∀ k, Covered v.offset.toNat call.value.elements k →
          ¬ Covered v'.offset.toNat call'.value.elements k := by
        intro k hk hk'
        exact hv.apartFrom hapart hv' hne k (hk.inside hsize) (hk'.inside hsize')
      rw [hafter, hafter', hboth, hboth']
      dsimp only
      rw [writeElements_comm _ hcovered]

/-- Calls with different names may be made in any order. The induction is on the permutation: two
calls in front that change places leave one block, and the calls behind them start from that. -/
theorem Mirrors.run_perm (h : block.Mirrors b) (hapart : b.vars.Pairwise Variable.ApartFrom)
    {calls calls' : List Call} (hperm : calls.Perm calls') (hnames : (calls.map Call.name).Nodup) :
    block.run calls = block.run calls' := by
  induction hperm generalizing block with
  | nil => rfl
  -- the same call in front of both lists leaves one block
  | cons call _ ih =>
    rw [List.map_cons, List.nodup_cons] at hnames
    exact ih (h.afterCall call) hnames.2
  | swap call call' calls =>
    have hne : call'.name ≠ call.name := by
      rw [List.map_cons, List.map_cons, List.nodup_cons] at hnames
      exact fun heq => hnames.1 (heq ▸ List.mem_cons_self)
    show UniformBlock.run ((block.afterCall call').afterCall call) calls
      = UniformBlock.run ((block.afterCall call).afterCall call') calls
    rw [h.afterCall_comm hapart hne]
  | trans hfirst _ ih ih' =>
    exact (ih h hnames).trans (ih' h ((hfirst.map Call.name).nodup_iff.1 hnames))

end

/-- **Calls may be made in any order.** Where no two variables of a buffer have a byte in common,
calls with different names are answered alike in every order, whatever calls came before, and leave
the same bytes. -/
theorem run_in_any_order {b : ConstantBuffer} (hapart : b.vars.Pairwise Variable.ApartFrom)
    (earlier : List Call) {calls calls' : List Call} (hnames : (calls.map Call.name).Nodup)
    (hperm : calls.Perm calls') :
    let block := (ofBuffer b).run earlier
    block.answers calls = calls.map block.answer ∧
      block.answers calls' = calls'.map block.answer ∧
      (block.run calls).data = (block.run calls').data := by
  intro block
  have hblock : block.Mirrors b := (mirrors_ofBuffer b).run earlier
  refine ⟨answers_eq block calls, answers_eq block calls', ?_⟩
  rw [hblock.run_perm hapart hperm hnames]

/-- An array of three floats, and a float in the row that the array ends in. -/
def sharedRowBuffer : ConstantBuffer where
  name := "Material"
  vars := [floatsAt "Weights" 16 36 3, floatsAt "Gloss" 52 4 0]
  size := 56
  flags := 0
  kind := .constantBuffer

/-- Behind a call to the array, three calls and the same calls from the last to the first: two of
them write to one row, and the other has no variable. -/
theorem run_in_any_order_sharedRow :
    let block := (ofBuffer sharedRowBuffer).run [⟨"Weights", .intArray [9, 9]⟩]
    let calls : List Call :=
      [⟨"Weights", .floatArray [1, 2, 3]⟩, ⟨"Gloss", .float 7⟩, ⟨"Tint", .float 5⟩]
    block.answers calls = [.ok (), .ok (), .error (.unknownVariable "Tint")] ∧
      block.answers calls.reverse = [.error (.unknownVariable "Tint"), .ok (), .ok ()] ∧
      (block.run calls).data = (block.run calls.reverse).data := by
  intro block calls
  have hapart : sharedRowBuffer.vars.Pairwise Variable.ApartFrom := by
    refine .cons (List.forall_mem_singleton.2 fun k hk hk' => ?_) (List.pairwise_singleton _ _)
    have hend : k < 16 + 36 := hk.2
    have hbegin : 52 ≤ k := hk'.1
    omega
  have hnames : (calls.map Call.name).Nodup := by decide
  obtain ⟨hanswers, hanswers', hdata⟩ := run_in_any_order hapart
    [⟨"Weights", .intArray [9, 9]⟩] hnames calls.reverse_perm.symm
  exact ⟨hanswers.trans rfl, hanswers'.trans rfl, hdata⟩

end UniformBlock
end ShaderBytecode
