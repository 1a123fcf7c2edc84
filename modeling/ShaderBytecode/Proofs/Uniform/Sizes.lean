import ShaderBytecode.Proofs.Glsl.BlockLayout
import ShaderBytecode.Proofs.Uniform.CallOrder

/-!
# Sizes of values

A value has two sizes. The packed length is checked before a value is written, and the std140 size
is what a value takes up among others. Both are told apart from the elements that are written, and
all three have to agree:

    packedLength_and_size : the packed length ends behind the last byte that is written, and the
                            std140 size is the packed length, rounded up to full rows for an array

A byte is written by a call if it does not matter to it what the block held before. These are the
bytes of the elements (`writes_iff_covered`), the last of which ends a value.

The std140 size is not computed from the packed length but from a table, one row for each form of
value. For a value that is no array the two are the same. For an array the table counts full rows,
while the packed length ends behind the last item, so the std140 size is the packed length rounded
up to the next multiple of the stride (`alignUp_packedLength`). An array without items has neither.
-/

namespace ShaderBytecode

namespace UniformValue

variable {v : UniformValue}

/-! ### Items of arrays -/

/-- The number of items of an array. Other values are no arrays. -/
def itemCount? : UniformValue → Option Nat
  | floatArray values | intArray values => some values.length
  | vec4Array rows => some rows.length
  | _ => none

/-- An array has one element for each of its items. -/
theorem length_elements {n : Nat} (h : v.itemCount? = some n) : v.elements.length = n := by
  cases v with
  | floatArray | vec4Array | intArray =>
    cases h
    exact List.length_map _
  | _ => cases h

/-- Only an array can be without elements. -/
theorem elements_ne_nil (h : v.itemCount? = none) : v.elements ≠ [] := by
  cases v with
  | floatArray | vec4Array | intArray => cases h
  | _ => exact List.cons_ne_nil _ _

theorem elements_eq_nil_iff : v.elements = [] ↔ v.itemCount? = some 0 := by
  cases hitems : v.itemCount? with
  | none => exact iff_of_false (elements_ne_nil hitems) nofun
  | some n => rw [← List.length_eq_zero_iff, length_elements hitems, Option.some.injEq]

theorem width_pos (v : UniformValue) : 0 < v.width := by
  cases v <;> simp only [width] <;> omega

/-- Every element has a word, so only a value without elements has no length. -/
theorem packedLength_eq_zero_iff : v.packedLength = 0 ↔ v.elements = [] := by
  constructor
  · intro hzero
    by_contra hne
    have hpos := v.width_pos
    rw [packedLength_eq hne] at hzero
    omega
  · intro hnil
    rw [packedLength, hnil]
    rfl

/-! ### The std140 size -/

/-- Where nothing is repeated, both sizes end behind the last word. -/
theorem size_std140_of_not_array (h : v.itemCount? = none) : v.std140.size = v.packedLength := by
  cases v with
  | floatArray | vec4Array | intArray => cases h
  | _ => rfl

theorem size_std140_of_array {n : Nat} (h : v.itemCount? = some n) :
    v.std140.size = stride * n := by
  cases v with
  | floatArray | vec4Array | intArray =>
    cases h
    rfl
  | _ => cases h

/-- Only the last row of an array need not be full. -/
theorem alignUp_packedLength {n : Nat} (h : v.itemCount? = some n) :
    Glsl.alignUp v.packedLength stride = stride * n := by
  have hlength := length_elements h
  -- rounded up means: a multiple, not below, and by less than a row above
  rw [Glsl.alignUp_eq_iff (by decide)]
  cases n with
  | zero =>
    rw [packedLength_eq_zero_iff.2 (List.eq_nil_of_length_eq_zero hlength)]
    exact ⟨Nat.dvd_mul_right _ _, Nat.le_refl _, by decide⟩
  | succ n =>
    have hne : v.elements ≠ [] := List.ne_nil_of_length_eq_add_one hlength
    have hpos := v.width_pos
    have hrow := v.four_mul_width_le
    rw [packedLength_eq hne, hlength, Nat.add_sub_cancel, Nat.mul_succ]
    exact ⟨Nat.dvd_add (Nat.dvd_mul_right _ _) (Nat.dvd_refl _), by omega, by omega⟩

end UniformValue

namespace UniformBlock

open UniformValue (stride)

/-! ### The bytes that a call writes

Which bytes a call writes is asked without looking at how it writes: a byte is written if what was
there before makes no difference afterwards. It takes two runs to tell, one from each of two
contents. -/

/-- A call writes a byte of a block: after the call the byte is the same whatever the block held. -/
def Writes (block : UniformBlock) (call : Call) (k : Nat) : Prop :=
  k < block.data.size ∧ ∀ data : Bytes, data.size = block.data.size →
    ({ block with data := data }.afterCall call).data[k]? = (block.afterCall call).data[k]?

/-- A byte of an element is the same whatever a buffer held. -/
theorem getElem?_writeElements_of_covered {data data' : Bytes} {offset k : Nat}
    {value : UniformValue} (hsize : data.size = data'.size)
    (hend : offset + value.packedLength ≤ data.size) (hk : Covered offset value.elements k) :
    (writeElements data offset value.elements)[k]?
      = (writeElements data' offset value.elements)[k]? := by
  obtain ⟨i, ws, hi, hle, hlt⟩ := hk
  have hrow : ∀ ws ∈ value.elements, 4 * ws.length ≤ stride := fun ws hws => by
    rw [UniformValue.length_of_mem_elements hws]
    exact value.four_mul_width_le
  have hlast := UniformValue.element_le_packedLength hi
  -- both buffers hold the bytes of the element there
  have hfound (d : Bytes) (hd : offset + value.packedLength ≤ d.size) :
      (writeElements d offset value.elements)[k]?
        = (wordBytes ws)[k - (offset + stride * i)]? := by
    have hroom : offset + stride * i + 4 * ws.length ≤ d.size := by omega
    have hplace : offset + stride * i + (k - (offset + stride * i)) = k := by omega
    rw [← @extract_writeElements d offset i value.elements ws hrow hi hroom,
      Array.getElem?_extract, size_writeElements, if_pos (by omega), hplace]
  rw [hfound data hend, hfound data' (hsize ▸ hend)]

/-- The last byte before the end of a value belongs to its last element. -/
theorem covered_last {value : UniformValue} (offset : Nat) (h : 0 < value.packedLength) :
    Covered offset value.elements (offset + value.packedLength - 1) := by
  have hne : value.elements ≠ [] :=
    mt UniformValue.packedLength_eq_zero_iff.2 (Nat.ne_of_gt h)
  have hwidth := UniformValue.length_of_mem_elements (List.getLast_mem hne)
  have hpos := value.width_pos
  refine ⟨value.elements.length - 1, value.elements.getLast hne, ?_, ?_, ?_⟩
  · rw [← List.getLast?_eq_getElem?, List.getLast?_eq_some_getLast hne]
  · rw [UniformValue.packedLength_eq hne]
    omega
  · rw [UniformValue.packedLength_eq hne, hwidth]
    omega

section

variable {block : UniformBlock} {name : String} {value : UniformValue} {slot : UniformSlot}
  (hslot : block.slot? name = some slot) (hsize : value.packedLength ≤ slot.size)
  (hend : slot.offset + value.packedLength ≤ block.data.size)

include hslot hsize hend

/-- A call that fits is carried out on any contents. -/
theorem data_afterCall {data : Bytes} (hdata : data.size = block.data.size) :
    ({ block with data := data }.afterCall ⟨name, value⟩).data
      = writeElements data slot.offset value.elements := by
  have hset : { block with data := data }.set name value
      = .ok { block with data := writeElements data slot.offset value.elements } :=
    set_eq_ok_iff.2 ⟨slot, hslot, hsize, by rwa [hdata], rfl⟩
  rw [afterCall, hset]

/-- The bytes that a call writes are those of the elements of its value. -/
theorem writes_iff_covered {k : Nat} :
    block.Writes ⟨name, value⟩ k ↔ Covered slot.offset value.elements k := by
  -- the same call on other contents of the same size
  have hafter {data : Bytes} (hdata : data.size = block.data.size) :=
    data_afterCall hslot hsize hend hdata
  have hblock : (block.afterCall ⟨name, value⟩).data = _ := hafter rfl
  constructor
  · rintro ⟨hk, hsame⟩
    by_contra huncovered
    -- another byte at this place would still be there after the call
    have hother := hsame (block.data.set k (block.data[k] + 1)) (Array.size_set _)
    rw [hafter (Array.size_set _), hblock, getElem?_writeElements huncovered,
      getElem?_writeElements huncovered] at hother
    simp [Array.getElem?_eq_getElem hk] at hother
  · intro hk
    obtain ⟨-, hlt⟩ := hk.inside (Nat.le_refl _)
    refine ⟨Nat.lt_of_lt_of_le hlt hend, fun data hdata => ?_⟩
    rw [hafter hdata, hblock]
    exact getElem?_writeElements_of_covered hdata (hdata ▸ hend) hk

end

/-- **The sizes of a value agree.** A call that is carried out writes bytes from the offset of its
variable up to the packed length of its value, the last of them in any case; a value without packed
length is an array without items. The std140 size of a value is its packed length, which for an
array is rounded up to a multiple of 16, so it is never less. -/
theorem packedLength_and_size (v : UniformValue) :
    (∀ (block : UniformBlock) (name : String) (slot : UniformSlot),
      block.slot? name = some slot → (block.set name v).isOk →
        (∀ k, block.Writes ⟨name, v⟩ k → slot.offset ≤ k ∧ k < slot.offset + v.packedLength) ∧
        (0 < v.packedLength → block.Writes ⟨name, v⟩ (slot.offset + v.packedLength - 1))) ∧
    (v.packedLength = 0 ↔ v.itemCount? = some 0) ∧
    (v.itemCount? = none → v.std140.size = v.packedLength) ∧
    (∀ n, v.itemCount? = some n → v.std140.size = Glsl.alignUp v.packedLength 16) ∧
    v.packedLength ≤ v.std140.size := by
  have harray : ∀ n, v.itemCount? = some n → v.std140.size = Glsl.alignUp v.packedLength 16 :=
    fun n hn => (UniformValue.size_std140_of_array hn).trans
      (UniformValue.alignUp_packedLength hn).symm
  refine ⟨fun block name slot hslot hok => ?_, ?_, UniformValue.size_std140_of_not_array, harray,
    ?_⟩
  · cases hset : block.set name v with
    | error e => simp [hset, Except.isOk, Except.toBool] at hok
    | ok block' =>
      obtain ⟨slot', hslot', hsize, hend, -⟩ := set_eq_ok_iff.1 hset
      cases hslot.symm.trans hslot'
      simp only [writes_iff_covered hslot hsize hend]
      exact ⟨fun k hk => hk.inside (Nat.le_refl _), covered_last slot.offset⟩
  · rw [UniformValue.packedLength_eq_zero_iff, UniformValue.elements_eq_nil_iff]
  · cases hitems : v.itemCount? with
    | none => exact Nat.le_of_eq (UniformValue.size_std140_of_not_array hitems).symm
    | some n =>
      obtain ⟨-, hle, -⟩ := (Glsl.alignUp_eq_iff (by decide)).1 (harray n hitems).symm
      exact hle

/-- Three floats are written up to byte 36 of an array, whose std140 size is 48; then another
variable may follow in the last row. -/
theorem packedLength_and_size_sharedRow :
    let v := UniformValue.floatArray [1, 2, 3]
    let block := ofBuffer sharedRowBuffer
    (block.set "Weights" v).isOk ∧
      ((∀ k, block.Writes ⟨"Weights", v⟩ k → 16 ≤ k ∧ k < 52) ∧
        block.Writes ⟨"Weights", v⟩ 51) ∧
      v.std140.size = Glsl.alignUp 36 16 ∧
      (UniformValue.vec3 1 2 3).std140.size = (UniformValue.vec3 1 2 3).packedLength := by
  intro v block
  have hok : (block.set "Weights" v).isOk := by decide
  have hslot : block.slot? "Weights" = some ⟨"Weights", 16, 36⟩ := by decide
  obtain ⟨hwrites, -, -, harray, -⟩ := packedLength_and_size v
  obtain ⟨hwithin, hlast⟩ := hwrites block "Weights" _ hslot hok
  obtain ⟨-, -, hplain, -⟩ := packedLength_and_size (.vec3 1 2 3)
  exact ⟨hok, ⟨hwithin, hlast (by decide)⟩, harray 3 rfl, hplain rfl⟩

end UniformBlock
end ShaderBytecode
