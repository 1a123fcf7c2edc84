import ShaderBytecode.Proofs.Resource.OffsetResolution
import ShaderBytecode.Proofs.Uniform

/-!
# Default values of a block

A block begins with zeros, and the default values of the variables are written over them one after
the other, as far as they reach into the buffer. They may lie over each other, stick out of the
buffer or miss it. Byte by byte, the last value written counts:

    getElem?_foldl_fillDefault : a byte is that of the last variable whose default value covers it,
                                 or what was there before
    default_fill               : the variables come in the order of their offsets, so that is the
                                 variable of the greatest offset, the last record of several

Filling in is a loop over the variables, and a byte of the result is told by looking back from its
end: of the default values that cover the byte, the one that was filled in last is there. The loop
goes over the variables as the buffer keeps them, which is in the order of their offsets, while a
payload lists them in its own order. `GivesByte` speaks about the order of the payload, where
variables at one offset are told apart by which record comes later.
-/

namespace ShaderBytecode

/-- The default value of a variable has a byte for a position of the buffer. -/
def Variable.DefaultCovers (v : Variable) (k : Nat) : Prop :=
  ∃ value, v.default = some value ∧ v.offset.toNat ≤ k ∧ k < v.offset.toNat + value.size

/-- The byte that the default value of a variable has for a position of the buffer. -/
def Variable.defaultByte? (v : Variable) (k : Nat) : Option UInt8 :=
  if v.offset.toNat ≤ k then v.default.bind (·[k - v.offset.toNat]?) else none

namespace Variable

/-- The byte comes from the default value, counted from where the variable begins. -/
theorem defaultByte?_eq_some_iff {v : Variable} {k : Nat} {x : UInt8} :
    v.defaultByte? k = some x ↔ ∃ value, v.default = some value ∧ v.offset.toNat ≤ k ∧
      value[k - v.offset.toNat]? = some x := by
  unfold defaultByte?
  split
  · next hle => simp [hle, Option.bind_eq_some_iff]
  · next hlt => simp [hlt]

/-- A default value has a byte for a position exactly if it covers it. -/
theorem isSome_defaultByte?_iff {v : Variable} {k : Nat} :
    (v.defaultByte? k).isSome ↔ v.DefaultCovers k := by
  rw [Option.isSome_iff_exists]
  constructor
  · rintro ⟨x, hx⟩
    obtain ⟨value, hvalue, hle, hbyte⟩ := defaultByte?_eq_some_iff.1 hx
    have hlt := (Array.getElem?_eq_some_iff.1 hbyte).1
    exact ⟨value, hvalue, hle, by omega⟩
  · rintro ⟨value, hvalue, hle, hlt⟩
    exact ⟨_, defaultByte?_eq_some_iff.2
      ⟨value, hvalue, hle, Array.getElem?_eq_getElem (by omega)⟩⟩

end Variable

namespace UniformBlock

open ResourceDefinitions

/-! ### Filling in -/

/-- A default value is filled in where it covers the buffer. -/
theorem getElem?_fillDefault {data : Bytes} {k : Nat} (hk : k < data.size) (v : Variable) :
    (fillDefault data v)[k]? = (v.defaultByte? k).or data[k]? := by
  unfold fillDefault Variable.defaultByte?
  cases v.default with
  | none => simp
  | some value =>
    rw [Bytes.getElem?_overwrite, Array.getElem?_eq_getElem hk]
    by_cases hle : v.offset.toNat ≤ k
    · cases hbyte : value[k - v.offset.toNat]? <;> simp [hle, hbyte]
    · simp [hle]

/-- Of the default values that cover a byte the last one is found there. -/
theorem getElem?_foldl_fillDefault (vars : List Variable) {data : Bytes} {k : Nat}
    (hk : k < data.size) :
    (vars.foldl fillDefault data)[k]? =
      ((vars.filter fun v => (v.defaultByte? k).isSome).getLast?.bind (·.defaultByte? k)).or
        data[k]? := by
  induction vars generalizing data with
  | nil => rfl
  | cons v vars ih =>
    have hk' : k < (fillDefault data v).size := by rwa [size_fillDefault]
    rw [List.foldl_cons, ih hk', getElem?_fillDefault hk, List.filter_cons]
    cases hbyte : v.defaultByte? k with
    -- the value does not cover the byte, so it is left out of the list and the byte is kept
    | none => simp
    | some x =>
      -- a later variable that covers the byte stays the last one
      rw [Option.isSome_some, if_pos rfl, List.getLast?_cons]
      cases hlast : (vars.filter fun v => (v.defaultByte? k).isSome).getLast? with
      | none => simp [hbyte]
      | some w =>
        have hw := (List.mem_filter.1 (List.mem_of_getLast? hlast)).2
        obtain ⟨y, hy⟩ := Option.isSome_iff_exists.1 hw
        simp [hy]

/-! ### Blocks of a payload -/

/-- The default value of a variable is the one that a byte of the buffer has: it covers the byte,
and of the variables whose default values cover it this one has the greatest offset, the last one if
several have it. -/
structure GivesByte (vars : List Variable) (k : Nat) (v : Variable) : Prop where
  covers : v.DefaultCovers k
  greatest : ∀ w ∈ vars, w.DefaultCovers k → w.offset ≤ v.offset
  last : ∃ front behind, vars = front ++ v :: behind ∧
    ∀ w ∈ behind, w.offset = v.offset → ¬ w.DefaultCovers k

/-- The last in the sorted list has the greatest offset, and is the last record that has it. -/
theorem givesByte_of_getLast? {vars sorted : List Variable}
    (h : StablySorted Variable.offset vars sorted) {k : Nat} {v : Variable}
    (hlast : (sorted.filter fun v => (v.defaultByte? k).isSome).getLast? = some v) :
    GivesByte vars k v := by
  -- sorting keeps the order of variables at one offset, so the last of those is the last record
  obtain ⟨hgreatest, hlast⟩ := (h.filter _).of_getLast? hlast
  rw [List.filter_filter, getLast?_filter_eq_some_iff] at hlast
  obtain ⟨hv, front, behind, hvars, hbehind⟩ := hlast
  simp only [beq_self_eq_true, Bool.true_and] at hv
  exact
    { covers := Variable.isSome_defaultByte?_iff.1 hv
      greatest := fun w hw hcovers =>
        hgreatest w (List.mem_filter.2 ⟨hw, Variable.isSome_defaultByte?_iff.2 hcovers⟩)
      last := ⟨front, behind, hvars, fun w hw hoffset hcovers => hbehind w hw (by
        simp [hoffset, Variable.isSome_defaultByte?_iff.2 hcovers])⟩ }

/-- Each byte of a new block is given by the default value of a variable, or is zero. -/
theorem getElem?_ofBuffer {b : ConstantBuffer} {vars : List Variable}
    (h : StablySorted Variable.offset vars b.vars) {k : Nat} (hk : k < b.size.toNat) :
    (∃ v value, GivesByte vars k v ∧ v.default = some value ∧
      (ofBuffer b).data[k]? = value[k - v.offset.toNat]?) ∨
    ((∀ v ∈ vars, ¬ v.DefaultCovers k) ∧ (ofBuffer b).data[k]? = some 0) := by
  -- what the byte is before anything is filled in
  have hzeros : (Array.replicate b.size.toNat (0 : UInt8))[k]? = some 0 := by
    rw [Array.getElem?_replicate, if_pos hk]
  have hlt : k < (Array.replicate b.size.toNat (0 : UInt8)).size := by rwa [Array.size_replicate]
  have hbyte := getElem?_foldl_fillDefault b.vars hlt
  rw [hzeros] at hbyte
  cases hlast : (b.vars.filter fun v => (v.defaultByte? k).isSome).getLast? with
  | none =>
    rw [hlast] at hbyte
    refine .inr ⟨fun v hv hcovers => ?_, hbyte⟩
    rw [List.getLast?_eq_none_iff, List.filter_eq_nil_iff] at hlast
    exact hlast v (h.perm.mem_iff.2 hv) (Variable.isSome_defaultByte?_iff.2 hcovers)
  | some v =>
    have hgives := givesByte_of_getLast? h hlast
    obtain ⟨x, hx⟩ := Option.isSome_iff_exists.1
      (Variable.isSome_defaultByte?_iff.2 hgives.covers)
    obtain ⟨value, hvalue, -, hvaluebyte⟩ := Variable.defaultByte?_eq_some_iff.1 hx
    rw [hlast, Option.bind_some, hx, Option.some_or] at hbyte
    exact .inl ⟨v, value, hgives, hvalue, hbyte.trans hvaluebyte.symm⟩

/-- **Default values are filled in.** The block of a constant buffer of a payload has the bytes of
the buffer. Each of them is the byte that the default value of a variable has there: of the
variables whose default values cover it the one of the greatest offset, the last record if several
share that. It is zero if none covers it. -/
theorem default_fill {payload : Bytes} {d : ResourceDefinitions} (h : decode payload = .ok d)
    {index : Nat} {b : ConstantBuffer} (hb : d.buffers[index]? = some b) :
    (ofBuffer b).data.size = b.size.toNat ∧
    ∃ vars, VariablesRecorded payload d.recordSizes (bufferPosition payload index) vars ∧
      StablySorted Variable.offset vars b.vars ∧
      ∀ k < b.size.toNat,
        (∃ v value, GivesByte vars k v ∧ v.default = some value ∧
          (ofBuffer b).data[k]? = value[k - v.offset.toNat]?) ∨
        ((∀ v ∈ vars, ¬ v.DefaultCovers k) ∧ (ofBuffer b).data[k]? = some 0) := by
  obtain ⟨hrecorded, -⟩ := of_decode h
  obtain ⟨vars, hlength, hvars, hsorted⟩ := (hrecorded.buffers index b hb).vars
  exact ⟨(mirrors_ofBuffer b).size, vars, ⟨hlength, hvars⟩, hsorted,
    fun k hk => getElem?_ofBuffer hsorted hk⟩

/-- A payload with a buffer of ten bytes and three variables. The first and the last of them begin
at 4, where the first sticks out of the buffer, and the other one begins at 0 and ends at 8. -/
def overlappingDefaults : Bytes := #[
  1, 0, 0, 0, 28, 0, 0, 0, 0, 0, 0, 0, 0, 0, 0, 0, 0, 4, 255, 255, 0, 0, 0, 0, 0, 0, 0, 0,
  -- the buffer, at 28
  140, 0, 0, 0, 3, 0, 0, 0, 52, 0, 0, 0, 10, 0, 0, 0, 0, 0, 0, 0, 0, 0, 0, 0,
  -- its variables, at 52
  142, 0, 0, 0, 4, 0, 0, 0, 8, 0, 0, 0, 2, 0, 0, 0, 124, 0, 0, 0, 148, 0, 0, 0,
  144, 0, 0, 0, 0, 0, 0, 0, 8, 0, 0, 0, 2, 0, 0, 0, 124, 0, 0, 0, 156, 0, 0, 0,
  146, 0, 0, 0, 4, 0, 0, 0, 4, 0, 0, 0, 2, 0, 0, 0, 124, 0, 0, 0, 164, 0, 0, 0,
  -- the type of a number, at 124
  0, 0, 3, 0, 1, 0, 1, 0, 0, 0, 0, 0, 0, 0, 0, 0,
  -- the names, at 140
  98, 0, 120, 0, 121, 0, 122, 0,
  -- the default values, at 148
  1, 2, 3, 4, 5, 6, 7, 8, 11, 12, 13, 14, 15, 16, 17, 18, 21, 22, 23, 24]

/-- Byte 5 lies in all three default values and is the one of the last record at 4. -/
theorem default_fill_overlappingDefaults :
    ∃ d b vars z, decode overlappingDefaults = .ok d ∧ d.buffers[0]? = some b ∧
      VariablesRecorded overlappingDefaults d.recordSizes 28 vars ∧ vars[2]? = some z ∧
      GivesByte vars 5 z ∧ (ofBuffer b).data[5]? = some 22 := by
  have hbuffer : ((decode overlappingDefaults).toOption.bind fun d =>
      d.buffers[0]?.map fun b => (d.announced, b.size)) = some (none, 10) := by
    decide +kernel
  cases hd : decode overlappingDefaults with
  | error e => simp [hd, Except.toOption] at hbuffer
  | ok d =>
    obtain ⟨b, hb, hsizes⟩ : ∃ b, d.buffers[0]? = some b ∧ (d.announced, b.size) = (none, 10) := by
      simpa [hd, Except.toOption] using hbuffer
    obtain ⟨hannounced, hsize⟩ := Prod.mk.inj hsizes
    have hstep : d.recordSizes = .least := by rw [recordSizes, hannounced]
    obtain ⟨-, vars, hvars, -, hfill⟩ := default_fill hd hb
    have hposition : bufferPosition overlappingDefaults 0 = 28 := by decide +kernel
    rw [hposition] at hvars
    have hlength : vars.length = 3 := hvars.length.trans (by decide +kernel)
    obtain ⟨x, y, z, rfl⟩ := List.length_eq_three.1 hlength
    have hrecorded (index : Nat) (v : Variable) (h : [x, y, z][index]? = some v) :
        VariableRecorded overlappingDefaults .least
          (variablePosition overlappingDefaults .least 28 index) v :=
      hstep ▸ hvars.recorded index v h
    have hx : x.offset = 4 := (hrecorded 0 x rfl).offset.trans (by decide +kernel)
    have hy : y.offset = 0 := (hrecorded 1 y rfl).offset.trans (by decide +kernel)
    have hz : z.offset = 4 := (hrecorded 2 z rfl).offset.trans (by decide +kernel)
    have hdefault : z.default = some #[21, 22, 23, 24] := by
      have hsize : z.size = 4 := (hrecorded 2 z rfl).size.trans (by decide +kernel)
      have hdefault := (hrecorded 2 z rfl).default
      rw [hsize] at hdefault
      have hother : DefaultRecorded overlappingDefaults
          (positionAt overlappingDefaults (variablePosition overlappingDefaults .least 28 2 + 20))
          (4 : UInt32).toNat (some #[21, 22, 23, 24]) := by
        unfold DefaultRecorded
        decide +kernel
      exact hdefault.unique hother
    have hcovers : z.DefaultCovers 5 := ⟨_, hdefault, by simp [hz], by simp [hz]⟩
    rcases hfill 5 (by simp [hsize]) with ⟨v, value, hgives, hvalue, hbyte⟩ | ⟨hnone, -⟩
    · have hle : 4 ≤ v.offset := hz ▸ hgives.greatest z (by simp) hcovers
      obtain rfl : v = z := by
        obtain ⟨front, behind, hvars, hbehind⟩ := hgives.last
        rcases front with _ | ⟨_, _ | ⟨_, _ | ⟨_, front⟩⟩⟩
        · cases hvars
          exact absurd hcovers (hbehind z (by simp) (hz.trans hx.symm))
        · cases hvars
          exact absurd hle (by rw [hy]; decide)
        · cases hvars
          rfl
        · simp at hvars
      rw [hdefault] at hvalue
      cases hvalue
      refine ⟨d, b, _, v, rfl, hb, hvars, rfl, hgives, hbyte.trans ?_⟩
      rw [hz]
      rfl
    · exact absurd hcovers (hnone z (by simp))

end UniformBlock
end ShaderBytecode
