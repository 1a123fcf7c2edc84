import ShaderBytecode.Proofs.Bytes.InPlace
import ShaderBytecode.Proofs.Uniform

/-!
# Writing in place

`UniformBlock.set` gives a new block or an error, so what it refuses cannot have changed anything.
The bytes of a block can also be kept in one place that a call writes to, element after element, and
that stays as it is when the call stops. There a call could stop half way, with some of its elements
written. It never does:

    InPlace.set_eq : InPlace.set block call block.data =
      ((block.answer call).mapError .refused, (block.afterCall call).data)
    set_after_run  : after any run, the next call writes the words of its value and nothing else,
                     and so it does in place

A call in place can stop for one more reason than a call that gives a new block: an element may
reach beyond the end of the bytes (`Stop.outside`). On the right hand side that reason does not
occur, since the check that is made before the first element is written bounds every one of them.
-/

namespace ShaderBytecode
namespace UniformBlock

open InPlace (bind_get bind_of_ok)
open UniformValue (stride)

/-- Why a call in place stops. -/
inductive Stop where
  | refused (cause : UniformError)
  /-- The bytes from one position to another are not all there. -/
  | outside (first last : Nat)
deriving DecidableEq, Repr

/-- Writing into some bytes. What has been written stays written when it stops. -/
abbrev Write := ExceptT Stop (StateM Bytes)

namespace InPlace

/-- Write one element. All of its bytes must be there. -/
def writeElement (first : Nat) (ws : List UInt32) : Write Unit := do
  let data ← get
  let last := first + 4 * ws.length
  if data.size < last then throw (.outside first last)
  MonadStateOf.set (data.overwrite first (wordBytes ws))

/-- Write elements from `offset` on, each a stride behind the one before. -/
def writeElements (offset : Nat) : List (List UInt32) → Write Unit
  | [] => return
  | ws :: rest => do
    writeElement offset ws
    writeElements (offset + stride) rest

/-- Write a value into the variable of a name. Of the block only its name and its variables are
used. -/
def set (block : UniformBlock) (call : Call) : Write Unit := do
  let some slot := block.slot? call.name
    | throw (.refused (.unknownVariable call.name))
  let needed := call.value.packedLength
  if slot.size < needed then throw (.refused (.tooLarge call.name needed slot.size))
  let data ← get
  if data.size < slot.offset + needed then
    throw <| .refused <| .outside
      ⟨block.name, (slot.offset + needed) % wordLimit, data.size % wordLimit⟩
  writeElements slot.offset call.value.elements

/-- The answers to a run of calls, and the bytes after it. -/
def run (block : UniformBlock) (data : Bytes) : List Call → List (Except Stop Unit) × Bytes
  | [] => ([], data)
  | call :: calls =>
    let (answer, data) := set block call data
    let (answers, data) := run block data calls
    (answer :: answers, data)

/-! ### Elements

`writeElement` is the only step that changes a byte, and it changes all bytes of an element or none.
So a value is written in part only if some element of it is outside and another one is not, and that
is what the check of the whole value excludes. -/

theorem writeElement_of_le {data : Bytes} {first : Nat} {ws : List UInt32}
    (h : first + 4 * ws.length ≤ data.size) :
    writeElement first ws data = (.ok (), data.overwrite first (wordBytes ws)) := by
  refine (bind_get _ data).trans ?_
  rw [if_neg (Nat.not_lt.2 h)]
  rfl

/-- Elements that are all inside are written, and nothing stops in between. The induction is on the
elements: one that is written leaves a buffer of the same size to those behind it. -/
theorem writeElements_of_inside {data : Bytes} {offset : Nat} {elements : List (List UInt32)}
    (h : ∀ i ws, elements[i]? = some ws → offset + stride * i + 4 * ws.length ≤ data.size) :
    writeElements offset elements data
      = (.ok (), UniformBlock.writeElements data offset elements) := by
  induction elements generalizing data offset with
  | nil => rfl
  | cons ws rest ih =>
    -- the elements behind it are inside as well, a stride further on
    have hrest : ∀ i ws', rest[i]? = some ws' →
        offset + stride + stride * i + 4 * ws'.length
          ≤ (data.overwrite offset (wordBytes ws)).size := by
      intro i ws' hi
      have hnext := h (i + 1) ws' hi
      rw [Nat.mul_succ] at hnext
      rw [Bytes.size_overwrite]
      omega
    exact (bind_of_ok (writeElement_of_le (h 0 ws rfl))).trans (ih hrest)

/-- The check of a value as a whole is one of all its elements. -/
theorem writeElements_of_packedLength_le {data : Bytes} {offset : Nat} {value : UniformValue}
    (h : offset + value.packedLength ≤ data.size) :
    writeElements offset value.elements data
      = (.ok (), UniformBlock.writeElements data offset value.elements) := by
  refine writeElements_of_inside fun i ws hi => ?_
  have hlast := UniformValue.element_le_packedLength hi
  omega

/-! ### Calls

The block itself is read for its name and its variables, which calls do not change. So a call in
place does not need the block that the calls before it would have made. -/

/-- **A call in place answers and writes like a call that gives a new block.** It never stops
between two elements, and one that is refused has written nothing. -/
theorem set_eq (block : UniformBlock) (call : Call) :
    set block call block.data
      = ((block.answer call).mapError .refused, (block.afterCall call).data) := by
  unfold set answer afterCall UniformBlock.set
  cases block.slot? call.name with
  | none => rfl
  | some slot =>
    dsimp only
    by_cases hsize : slot.size < call.value.packedLength
    · rw [if_pos hsize, if_pos hsize]
      rfl
    · rw [if_neg hsize, if_neg hsize]
      refine (bind_get _ block.data).trans ?_
      by_cases hend : block.data.size < slot.offset + call.value.packedLength
      · rw [if_pos hend, if_pos hend]
        rfl
      · -- carried out: the check of the whole value bounds all of its elements
        rw [if_neg hend, if_neg hend]
        exact writeElements_of_packedLength_le (Nat.not_lt.1 hend)

/-- A call in place uses no more of the block than its name and its variables, which no call
changes. -/
theorem set_afterCall (block : UniformBlock) (earlier call : Call) :
    set (block.afterCall earlier) call = set block call := by
  obtain ⟨data, -, hblock⟩ := exists_afterCall_eq block earlier
  rw [hblock]
  rfl

theorem set_run (block : UniformBlock) (calls : List Call) (call : Call) :
    set (block.run calls) call = set block call := by
  induction calls generalizing block with
  | nil => rfl
  | cons earlier calls ih => exact (ih (block.afterCall earlier)).trans (set_afterCall ..)

theorem run_afterCall (block : UniformBlock) (earlier : Call) (data : Bytes) (calls : List Call) :
    run (block.afterCall earlier) data calls = run block data calls := by
  induction calls generalizing data with
  | nil => rfl
  | cons call calls ih => simp only [run, set_afterCall, ih]

/-- **A run of calls in place** gives the answers and the bytes of a run that makes a new block for
every call. -/
theorem run_eq (block : UniformBlock) (calls : List Call) :
    run block block.data calls
      = ((block.answers calls).map (·.mapError .refused), (block.run calls).data) := by
  induction calls generalizing block with
  | nil => rfl
  | cons call calls ih =>
    have hrest := ih (block.afterCall call)
    rw [run_afterCall] at hrest
    simp only [run, set_eq, hrest]
    rfl

end InPlace

/-! ### Runs of calls

What follows puts the run and the next call together: the size of the block, the answer, the bytes
that are written and the bytes that stay. -/

/-- **What a run does to a block.** After any calls the block has the size of its buffer. The next
call succeeds exactly if the value fits; if it is refused all bytes are as before, and otherwise the
words of the value stand in the variable of the name, within the variable and within the buffer, and
all other bytes are as before. The variable of the name is the last one, which has the greatest
offset where the variables are in ascending order. Calls that write in place leave the same bytes,
also those that are refused. -/
theorem set_after_run (b : ConstantBuffer) (calls : List Call) (call : Call) :
    let before := (ofBuffer b).run calls
    let after := (ofBuffer b).run (calls ++ [call])
    let result := before.set call.name call.value
    before.data.size = b.size.toNat ∧
    (result.isOk ↔ ∃ v, IsNamed b call.name v ∧ call.value.packedLength ≤ v.size.toNat ∧
      v.offset.toNat + call.value.packedLength ≤ b.size.toNat) ∧
    (¬ result.isOk → after.data = before.data) ∧
    (result.isOk → ∃ v, IsNamed b call.name v ∧
      IsWritten before.data v.offset.toNat call.value after.data ∧
      WordsWithin call.value v.offset.toNat v.offset.toNat (v.offset.toNat + v.size.toNat) ∧
      WordsWithin call.value v.offset.toNat v.offset.toNat b.size.toNat) ∧
    (Ascending b → ∀ v, IsNamed b call.name v →
      ∀ w ∈ b.vars, w.name = call.name → w.offset ≤ v.offset) ∧
    (InPlace.run (ofBuffer b) (ofBuffer b).data calls).2 = before.data ∧
    InPlace.set (ofBuffer b) call before.data
      = ((before.answer call).mapError .refused, after.data) := by
  intro before after result
  have hbefore : before.Mirrors b := (mirrors_ofBuffer b).run calls
  have hafter : after = before.afterCall call := run_append_singleton _ _ _
  refine ⟨hbefore.size, hbefore.isOk_set_iff, ?_, ?_,
    fun hascending v hv => hv.offset_le hascending, ?_, ?_⟩
  · intro hrefused
    rw [hafter, afterCall]
    cases hset : before.set call.name call.value with
    | error e => rfl
    | ok block => exact absurd (by simp [result, hset, Except.isOk, Except.toBool]) hrefused
  · intro hok
    cases hset : before.set call.name call.value with
    | error e => simp [result, hset, Except.isOk, Except.toBool] at hok
    | ok block =>
      rw [hafter, afterCall, hset]
      exact hbefore.of_set_eq_ok hset
  · rw [InPlace.run_eq]
  · rw [hafter, ← InPlace.set_run (ofBuffer b) calls call]
    exact InPlace.set_eq before call

/-- A variable of floats, one element or an array of them. -/
def floatsAt (name : String) (offset size : UInt32) (elements : UInt16) : Variable where
  name := name
  offset := offset
  size := size
  flags := 2
  type := .mk ⟨.scalar, .float, 1, 1, elements, none⟩ .nil
  default := none

/-- An array of three floats between two variables of one name. -/
def weightsBuffer : ConstantBuffer where
  name := "Material"
  vars := [floatsAt "Gloss" 0 4 0, floatsAt "Weights" 16 36 3, floatsAt "Gloss" 52 4 0]
  size := 56
  flags := 0
  kind := .constantBuffer

/-- Four floats are refused where there is room for three, and a value for a repeated name goes to
the last variable of the name, which shares a row with the end of an array. -/
theorem set_after_run_weightsBuffer :
    let fill : Call := ⟨"Weights", .floatArray [1, 2, 3]⟩
    let before := (ofBuffer weightsBuffer).run [fill]
    (¬ (before.set "Weights" (.floatArray [1, 2, 3, 4])).isOk ∧
      ((ofBuffer weightsBuffer).run [fill, ⟨"Weights", .floatArray [1, 2, 3, 4]⟩]).data
        = before.data) ∧
    (before.set "Gloss" (.float 7)).isOk ∧
    ∃ v, IsNamed weightsBuffer "Gloss" v ∧ v.offset = 52 ∧
      IsWritten before.data 52 (.float 7)
        ((ofBuffer weightsBuffer).run [fill, ⟨"Gloss", .float 7⟩]).data := by
  intro fill before
  have hrefused : ¬ (before.set "Weights" (.floatArray [1, 2, 3, 4])).isOk := by decide
  have hok : (before.set "Gloss" (.float 7)).isOk := by decide
  obtain ⟨-, -, hkeep, -⟩ :=
    set_after_run weightsBuffer [fill] ⟨"Weights", .floatArray [1, 2, 3, 4]⟩
  obtain ⟨-, -, -, hwrite, -⟩ := set_after_run weightsBuffer [fill] ⟨"Gloss", .float 7⟩
  obtain ⟨v, hv, hwritten, -, -⟩ := hwrite hok
  have hlast : v = floatsAt "Gloss" 52 4 0 := by
    have hfound := isNamed_iff.1 hv
    exact (Option.some.inj hfound).symm
  rw [hlast] at hwritten hv
  exact ⟨⟨hrefused, hkeep hrefused⟩, hok, _, hv, rfl, hwritten⟩

end UniformBlock
end ShaderBytecode
