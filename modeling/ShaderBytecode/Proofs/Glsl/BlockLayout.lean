import Mathlib.Data.List.Chain
import ShaderBytecode.Glsl.Emit
import ShaderBytecode.Uniform

/-!
# Where the members of a uniform block stand

A uniform block shows a constant buffer by names. The declaration of a member says nothing about
where it stands: by the std140 rules it stands at the first multiple of its alignment behind the
member before it. The variable it declares stands at the offset that the resource definitions
record, and there the values of the block are written and the plain rows of the buffer read them.

    std140Offsets_eq_iff : std140Offsets 0 members = the recorded offsets
                             ↔ each variable is the next one behind the variable before it

So a block and its buffer agree exactly if any two neighbours do. The rules by which the compiler
places variables are not those of std140, and neighbours differ where a vector stands behind a
scalar in the same row, where a variable stands in the last row of an array, and where a place was
left free on purpose (`std140Offsets_spacedBuffer`).

The declaration is text, and a compiler for the language lays it out. What it does then is told by
the language and not by the program, so the rules are written down here.
-/

namespace ShaderBytecode
namespace Glsl

/-! ### The std140 rules

The rules for what a member can be: scalars, vectors, and arrays of them. Matrices are declared as
arrays of their rows, and structures do not occur. -/

/-- The first multiple of `align` that is not less than `n`. -/
def alignUp (n align : Nat) : Nat := (n + align - 1) / align * align

/-- What it is to be the first multiple. -/
theorem alignUp_eq_iff {n align o : Nat} (h : 0 < align) :
    alignUp n align = o ↔ align ∣ o ∧ n ≤ o ∧ o < n + align := by
  unfold alignUp
  have hdiv := Nat.div_add_mod (n + align - 1) align
  have hmod := Nat.mod_lt (n + align - 1) h
  rw [Nat.mul_comm] at hdiv
  constructor
  · rintro rfl
    exact ⟨Nat.dvd_mul_left _ _, by omega, by omega⟩
  · rintro ⟨⟨k, rfl⟩, hle, hlt⟩
    -- the multiple is that of the rounded quotient
    have hk : (n + align - 1) / align = k := by
      apply Nat.div_eq_of_lt_le
      · rw [Nat.mul_comm]
        omega
      · rw [Nat.succ_mul, Nat.mul_comm]
        omega
    rw [hk, Nat.mul_comm]

/-- The std140 layout of a member. The elements of an array begin rows of their own. -/
def BlockMember.std140 (m : BlockMember) : BlockLayout :=
  match m.length with
  | some length => ⟨UniformValue.stride * length, UniformValue.stride⟩
  | none =>
    match m.type.lanes with
    | 1 => ⟨4, 4⟩
    | 2 => ⟨8, 8⟩
    | lanes => ⟨4 * lanes, 16⟩

/-- Every alignment is positive. -/
theorem BlockMember.align_pos (m : BlockMember) : 0 < m.std140.align := by
  unfold std140
  split
  · exact Nat.zero_lt_succ 15
  · split <;> exact Nat.zero_lt_succ _

/-- Where members stand that are laid out one after the other, the first of them not in front of
`start`. -/
def std140Offsets (start : Nat) : List BlockMember → List Nat
  | [] => []
  | m :: ms =>
    let offset := alignUp start m.std140.align
    offset :: std140Offsets (offset + m.std140.size) ms

/-! ### Members and variables

The sizes of members are those of the declaration. What a variable records as its size may be
larger, and takes no part in the layout. -/

/-- The offset that the comment of a member tells is the recorded one. -/
@[simp] theorem offset_blockMember (v : Variable) : (blockMember v).offset = some v.offset := by
  unfold blockMember
  split <;> rfl

/-- A variable stands at the first place behind `stop` that its alignment allows. -/
def NextBehind (stop : Nat) (v : Variable) : Prop :=
  (blockMember v).std140.align ∣ v.offset.toNat ∧ stop ≤ v.offset.toNat ∧
    v.offset.toNat < stop + (blockMember v).std140.align

instance (stop : Nat) (v : Variable) : Decidable (NextBehind stop v) :=
  inferInstanceAs (Decidable (_ ∧ _ ∧ _))

/-- The position behind the member that declares a variable, if it stands where it is recorded. -/
def std140End (v : Variable) : Nat := v.offset.toNat + (blockMember v).std140.size

/-- The members stand where they are recorded if each is the next one behind its neighbour. -/
theorem std140Offsets_map_eq_iff {start : Nat} {vars : List Variable} :
    std140Offsets start (vars.map blockMember) = vars.map (·.offset.toNat) ↔
      (∀ v ∈ vars.head?, NextBehind start v) ∧
        vars.IsChain fun v w => NextBehind (std140End v) w := by
  induction vars generalizing start with
  | nil => simp [std140Offsets]
  | cons v vars ih =>
    have hfirst : alignUp start (blockMember v).std140.align = v.offset.toNat
        ↔ NextBehind start v :=
      alignUp_eq_iff (BlockMember.align_pos _)
    simp only [List.map_cons, std140Offsets, List.cons.injEq, List.isChain_cons, List.head?_cons,
      Option.mem_some_iff, forall_eq', hfirst]
    -- what follows is laid out behind the recorded place of the first
    exact and_congr_right fun h => by rw [hfirst.2 h]; exact ih

/-- The first multiple that is not negative is zero. -/
theorem nextBehind_zero_iff {v : Variable} : NextBehind 0 v ↔ v.offset = 0 := by
  have hpos := BlockMember.align_pos (blockMember v)
  constructor
  · rintro ⟨hdvd, -, hlt⟩
    rw [Nat.zero_add] at hlt
    exact UInt32.toNat_inj.1 (Nat.eq_zero_of_dvd_of_lt hdvd hlt)
  · intro h
    refine ⟨?_, Nat.zero_le _, ?_⟩
    · rw [h]
      exact Nat.dvd_zero _
    · rw [h, Nat.zero_add]
      exact hpos

/-- The members of a block are those that declare the variables. -/
theorem members_of_bufferBlock? {bindings : BlockBindings} {b : ConstantBuffer}
    {binding : Option Nat} {name : String} {members : List BlockMember}
    (h : bufferBlock? bindings b = some (.block binding name members)) :
    members = b.vars.map blockMember := by
  unfold bufferBlock? at h
  split at h
  · split at h
    · cases h
    · cases h; rfl
  · cases h

section

variable {bindings : BlockBindings} {b : ConstantBuffer} {binding : Option Nat} {name : String}
  {members : List BlockMember}

/-- **When a block shows its buffer.** The members of a uniform block stand at the offsets that are
recorded for their variables exactly if the first variable is recorded at the beginning and each
other at the first place behind its neighbour that its alignment allows. -/
theorem std140Offsets_eq_iff (h : bufferBlock? bindings b = some (.block binding name members)) :
    std140Offsets 0 members = b.vars.map (·.offset.toNat) ↔
      (∀ v ∈ b.vars.head?, v.offset = 0) ∧
        b.vars.IsChain fun v w => NextBehind (std140End v) w := by
  rw [members_of_bufferBlock? h, std140Offsets_map_eq_iff]
  simp only [nextBehind_zero_iff]

end

/-! ### Two buffers

One buffer whose variables are packed as the rules want it, and one whose second variable was given
a place of its own. -/

/-- A variable of floats: a scalar or vector, or an array of them. -/
def floatVariable (name : String) (offset size : UInt32) (columns elements : UInt16) :
    Variable where
  name := name
  offset := offset
  size := size
  flags := 2
  type := .mk ⟨.vector, .float, 1, columns, elements, none⟩ .nil
  default := none

/-- A scalar in the row of a vector, and an array behind them. -/
def packedBuffer : ConstantBuffer where
  name := "Material"
  vars := [floatVariable "Tint" 0 12 3 0, floatVariable "Gloss" 12 4 1 0,
    floatVariable "Weights" 16 36 1 3, floatVariable "Fog" 64 16 4 0]
  size := 80
  flags := 0
  kind := .constantBuffer

/-- A scalar that fills up the row of a vector is placed by both rules in the same way. -/
theorem std140Offsets_packedBuffer :
    ∃ binding name members,
      bufferBlock? ⟨[]⟩ packedBuffer = some (.block binding name members) ∧
        std140Offsets 0 members = packedBuffer.vars.map (·.offset.toNat) := by
  have hblock : bufferBlock? ⟨[]⟩ packedBuffer
      = some (.block none (identifier "Material") (packedBuffer.vars.map blockMember)) := rfl
  refine ⟨_, _, _, hblock, (std140Offsets_eq_iff hblock).2 ⟨?_, by decide⟩⟩
  simp [packedBuffer, floatVariable]

/-- Two rows with a free row between them. -/
def spacedBuffer : ConstantBuffer where
  name := "Globals"
  vars := [floatVariable "Tint" 0 16 4 0, floatVariable "Fog" 32 16 4 0]
  size := 48
  flags := 0
  kind := .constantBuffer

/-- A block need not show its buffer: here the second variable is recorded in the third row and
declared in the second. -/
theorem std140Offsets_spacedBuffer :
    ¬ ∀ (bindings : BlockBindings) (b : ConstantBuffer) (binding : Option Nat) (name : String)
        (members : List BlockMember),
      bufferBlock? bindings b = some (.block binding name members) →
        std140Offsets 0 members = b.vars.map (·.offset.toNat) := by
  intro h
  have hblock : bufferBlock? ⟨[]⟩ spacedBuffer
      = some (.block none (identifier "Globals") (spacedBuffer.vars.map blockMember)) := rfl
  exact absurd (h _ _ _ _ _ hblock) (by decide)

end Glsl
end ShaderBytecode
