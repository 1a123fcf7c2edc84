import ShaderBytecode.Proofs.Resource.Decoding

/-!
# One cursor for all records

A decoder can also go through the records of a payload with one cursor that it moves from record to
record: to a buffer, from there to a variable, to its type, to the members of that type and to a
default value. Here such a walk is set beside decoding, where every record is decoded from its own
position. Wherever the cursor stands when a step begins, the step finds the same:

    Agrees payload step step' : step, with a cursor anywhere in the payload, finds what step' finds

The walk keeps its state when it fails, so the type records that it has begun can be counted then
too.

The walk is written in the order in which records are followed, with a cursor that is left wherever
the last read ended. That no step of it minds where the cursor was left is what is to be shown.
-/

namespace ShaderBytecode

open Decode

/-- A step that only moves the cursor. -/
def Decode.KeepsBuffer (step : Decode α) : Prop :=
  ∀ c a c', step c = .ok (a, c') → c'.data = c.data

/-- Reading a record moves the cursor and nothing else. -/
theorem Decode.ReadsRecord.keepsBuffer {fields : Decode α} {width : Nat}
    {value : Bytes → Nat → Except DecodeError α} (h : ReadsRecord fields width value) :
    KeepsBuffer fields := by
  intro c a c' hok
  rw [← bind_pure fields] at hok
  obtain ⟨hroom, a', -, hpair⟩ := h.bind_eq_ok_iff.1 hok
  cases hpair
  rfl

/-- Two steps that only move the cursor. -/
theorem Decode.KeepsBuffer.bind {step : Decode α} {next : α → Decode β} (h : KeepsBuffer step)
    (h' : ∀ a, KeepsBuffer (next a)) : KeepsBuffer (step >>= next) := by
  intro c b c'' hok
  obtain ⟨⟨a, c'⟩, ha, hb⟩ := bind_eq_ok_iff.1 hok
  exact (h' a c' b c'' hb).trans (h c a c' ha)

namespace ResourceDefinitions

/-- Where a walk stands, and how many type records it has begun. -/
structure Walk where
  cursor : Cursor
  types : Nat

/-- A step of a walk. A walk that has failed still has its state. -/
abbrev Walking := ExceptT DecodeError (StateM Walk)

namespace Walking

/-! ### The steps

Every step that reads a record seeks to it first. The steps whose names end in `Here` leave the seek
to their caller, as a loop over records does it. -/

/-- Decode fields from where the cursor stands, which then stands behind them. -/
def fields (action : Decode α) : Walking α := fun w =>
  match action w.cursor with
  | .ok (a, c) => (.ok a, { w with cursor := c })
  | .error e => (.error e, w)

/-- Move the cursor. -/
def seek (position : Nat) : Walking Unit := fun w =>
  match w.cursor.seek position with
  | .ok c => (.ok (), { w with cursor := c })
  | .error e => (.error (.read e), w)

/-- The string at a position; the cursor stays. -/
def text (position : Nat) : Walking String := fun w =>
  ((w.cursor.stringAt position).mapError .read, w)

/-- Begin one more type record. -/
def beginType : Walking Unit := fun w =>
  (if maxTypeRecords < w.types + 1 then .error (.unsupported .typeCount (w.types + 1)) else .ok (),
    { w with types := w.types + 1 })

/-- The name of the type whose record begins at a position. -/
def nameOfType (sizes : RecordSizes) (position : Nat) : Walking (Option String) := do
  if RecordSizes.least.typeBytes < sizes.typeBytes then
    seek (position + sizes.typeBytes - 4)
    let name ← fields (Cursor.u32 : Read UInt32)
    if name = 0 then return none
    return some (← text name.toNat)
  else return none

/-- The type at a position, `depth` levels below the type of a variable. -/
def typeFrom (sizes : RecordSizes) (position depth : Nat) : Walking VariableType :=
  if _ : maxTypeDepth < depth then throw (.unsupported .typeDepth depth)
  else do
    beginType
    seek position
    let record ← fields typeFields
    let name ← nameOfType sizes position
    let members ← repeated (fun index => do
      seek (record.memberPosition + index * memberRecordBytes)
      let (name, type, offset) ← fields threeWords
      let name ← text name.toNat
      let type ← typeFrom sizes type.toNat (depth + 1)
      return (name, offset, type)) 0 record.memberCount
    return .mk { record.shape with name := name } (.ofList members)
termination_by maxTypeDepth + 1 - depth

/-- The variable whose record the cursor stands in front of. -/
def variableHere (sizes : RecordSizes) : Walking Variable := do
  let (name, offset, size, flags, type, default) ← fields sixWords
  let name ← text name.toNat
  let type ← typeFrom sizes type.toNat 0
  if default = 0 then return ⟨name, offset, size, flags, type, none⟩
  seek default.toNat
  let bytes ← fields (Cursor.take size.toNat : Read Bytes)
  return ⟨name, offset, size, flags, type, some bytes⟩

/-- The constant buffer whose record the cursor stands in front of. -/
def bufferHere (sizes : RecordSizes) : Walking ConstantBuffer := do
  let (name, count, first, size, flags, kind) ← fields sixWords
  let name ← text name.toNat
  let vars ← repeated (fun index => do
    seek (first.toNat + index * sizes.variableBytes)
    variableHere sizes) 0 count.toNat
  return ⟨name, sortByOffset vars, size, flags, .ofCode kind⟩

/-- The binding whose record the cursor stands in front of. -/
def bindingHere : Walking ResourceBinding := do
  let (name, binding) ← fields bindingFields
  return binding (← text name.toNat)

/-- The definitions whose records follow a preamble. -/
def definitionsFrom (p : Preamble) (sizes : RecordSizes) (creator : String) :
    Walking ResourceDefinitions := do
  let buffers ← repeated (fun index => do
    seek (p.bufferPosition + index * bufferRecordBytes)
    bufferHere sizes) 0 p.bufferCount
  let bindings ← repeated (fun index => do
    seek (p.bindingPosition + index * sizes.bindingBytes)
    bindingHere) 0 p.bindingCount
  return ⟨p.majorVersion, p.minorVersion, p.stage, p.flags, creator, p.announced, buffers,
    bindings⟩

/-- All the definitions of a payload that the cursor stands in front of. -/
def definitions : Walking ResourceDefinitions := do
  let p ← fields preamble
  let sizes ← p.recordSizes
  if p.creatorPosition = 0 then definitionsFrom p sizes ""
  else text p.creatorPosition >>= definitionsFrom p sizes

end Walking

/-- Decode a payload with one cursor: what is found, and how the walk ends. -/
def traverse (payload : Bytes) : Except DecodeError ResourceDefinitions × Walk :=
  Walking.definitions ⟨.start payload, 0⟩

/-! ### Steps that agree

A step of the walk is compared with the step of the decoder that has the record's position as an
argument. The comparison holds for every cursor in the payload, which is how the position of the
cursor drops out. -/

/-- A step of a walk and a step without a cursor end alike: with the same result and the same number
of type records, or for the same reason. The cursor still stands in the payload, and there is room
for the records, unless the last one was one too many. -/
inductive EndsAlike (payload : Bytes) :
    Except DecodeError α × Walk → Except DecodeError (α × Nat) → Prop
  | ok {a : α} {w : Walk} (data : w.cursor.data = payload) (types_le : w.types ≤ maxTypeRecords) :
      EndsAlike payload (.ok a, w) (.ok (a, w.types))
  | error {e : DecodeError} {w : Walk} (types_le : w.types ≤ maxTypeRecords + 1) :
      EndsAlike payload (.error e, w) (.error e)

/-- Wherever the cursor stands in the payload, a step of a walk ends like a step without a
cursor. -/
def Agrees (payload : Bytes) (step : Walking α) (step' : Counting α) : Prop :=
  ∀ w : Walk, w.cursor.data = payload → w.types ≤ maxTypeRecords →
    EndsAlike payload (step w) (step' w.types)

section

variable {payload : Bytes}

/-- Steps that end alike have the same result. -/
theorem EndsAlike.fst_eq {r : Except DecodeError α × Walk} {r' : Except DecodeError (α × Nat)}
    (h : EndsAlike payload r r') : r.1 = r'.map Prod.fst := by
  cases h <;> rfl

/-- A step begins one record too many at most, and only if it fails. -/
theorem EndsAlike.types_le {r : Except DecodeError α × Walk} {r' : Except DecodeError (α × Nat)}
    (h : EndsAlike payload r r') : r.2.types ≤ maxTypeRecords + 1 := by
  cases h with
  | ok _ hle => exact Nat.le_succ_of_le hle
  | error hle => exact hle

/-- Steps that end alike have begun the same number of records. -/
theorem EndsAlike.types_eq {r : Except DecodeError α × Walk} {r' : Except DecodeError (α × Nat)}
    (h : EndsAlike payload r r') {a : α} {n : Nat} (hr' : r' = .ok (a, n)) : r.2.types = n := by
  cases h with
  | ok => cases hr'; rfl
  | error => cases hr'

/-- What comes behind two steps that end alike, if it agrees. -/
theorem EndsAlike.bind {step : Walking α} {step' : Counting α} {next : α → Walking β}
    {next' : α → Counting β} {w : Walk} {n : Nat} (h : EndsAlike payload (step w) (step' n))
    (h' : ∀ a, Agrees payload (next a) (next' a)) :
    EndsAlike payload ((step >>= next) w) ((step' >>= next') n) := by
  simp only [Bind.bind, ExceptT.bind, ExceptT.mk, StateT.bind]
  generalize step w = r at h
  generalize step' n = r' at h
  cases h with
  | ok hdata hle => exact h' _ _ hdata hle
  | error hle => exact .error hle

/-- A sequence of steps that agree. -/
theorem Agrees.bind {step : Walking α} {step' : Counting α} {next : α → Walking β}
    {next' : α → Counting β} (h : Agrees payload step step')
    (h' : ∀ a, Agrees payload (next a) (next' a)) :
    Agrees payload (step >>= next) (step' >>= next') :=
  fun w hdata hle => (h w hdata hle).bind h'

/-- A result that is there. -/
theorem agrees_pure (a : α) : Agrees payload (pure a) (pure a) :=
  fun _ hdata hle => .ok hdata hle

/-- A failure. The walk keeps its state. -/
theorem agrees_throw (e : DecodeError) :
    Agrees payload (throw e : Walking α) (throw e) :=
  fun _ _ hle => .error (Nat.le_succ_of_le hle)

/-- A result that does not need the payload. -/
theorem agrees_lift (x : Except DecodeError α) :
    Agrees payload (liftM x : Walking α) (liftM x) := by
  cases x with
  | error e => exact agrees_throw e
  | ok a => exact agrees_pure a

/-- Both count a type record in the same way. -/
theorem agrees_beginType : Agrees payload Walking.beginType countType := by
  intro w hdata hle
  rw [countType_eq, Walking.beginType]
  split
  · exact .error (Nat.succ_le_succ hle)
  · next hroom => exact .ok (w := { w with types := w.types + 1 }) hdata (Nat.not_lt.1 hroom)

/-- A name is read at its own position in both. -/
theorem agrees_text (position : Nat) :
    Agrees payload (Walking.text position) (liftM (stringAt payload position)) := by
  intro w hdata hle
  have htext : (w.cursor.stringAt position).mapError .read = stringAt payload position := by
    subst hdata
    rfl
  rw [Walking.text, htext]
  cases stringAt payload position with
  | error e => exact .error (Nat.le_succ_of_le hle)
  | ok text => exact .ok hdata hle

/-- Fields are the same whether a cursor that stands there is kept or a new one is made. -/
theorem endsAlike_fields {action : Decode α} (h : KeepsBuffer action) {position n : Nat}
    (hposition : position ≤ payload.size) (hle : n ≤ maxTypeRecords) :
    EndsAlike payload (Walking.fields action ⟨⟨payload, position, hposition⟩, n⟩)
      ((liftM (fieldsAt payload position action) : Counting α) n) := by
  have hfieldsAt : fieldsAt payload position action =
      (action ⟨payload, position, hposition⟩).map Prod.fst := by
    unfold fieldsAt
    rw [Cursor.seek_eq_ok_iff.2 ⟨hposition, rfl⟩]
    rfl
  rw [Walking.fields, hfieldsAt]
  cases haction : action ⟨payload, position, hposition⟩ with
  | error e => exact .error (Nat.le_succ_of_le hle)
  | ok r => exact .ok (w := ⟨r.2, n⟩) (h _ _ _ haction) hle

/-- A seek in front of the fields makes the cursor a new one. -/
theorem agrees_fieldsAt {action : Decode α} (h : KeepsBuffer action) (position : Nat) :
    Agrees payload (Walking.seek position >>= fun _ => Walking.fields action)
      (liftM (fieldsAt payload position action)) := by
  intro w hdata hle
  subst hdata
  -- the position is inside, or both readers refuse it with the same error
  by_cases hposition : position ≤ w.cursor.data.size
  · have hseek : Walking.seek position w =
        (.ok (), ⟨⟨w.cursor.data, position, hposition⟩, w.types⟩) := by
      rw [Walking.seek, Cursor.seek_eq_ok_iff.2 ⟨hposition, rfl⟩]
    simp only [Bind.bind, ExceptT.bind, ExceptT.mk, StateT.bind, hseek]
    exact endsAlike_fields h hposition hle
  · have hseek : Walking.seek position w =
        (.error (.read (.outOfBounds position w.cursor.data.size)), w) := by
      rw [Walking.seek, Cursor.seek, dif_neg hposition]
    simp only [Bind.bind, ExceptT.bind, ExceptT.mk, StateT.bind, hseek]
    unfold fieldsAt
    rw [Cursor.seek, dif_neg (by exact hposition)]
    exact .error (Nat.le_succ_of_le hle)

/-- A record at a position, and what comes after its fields. -/
theorem Agrees.fieldsAt_bind {action : Decode α} (h : KeepsBuffer action) {position : Nat}
    {next : α → Walking β} {next' : α → Counting β}
    (h' : ∀ a, Agrees payload (next a) (next' a)) :
    Agrees payload (Walking.seek position >>= fun _ => Walking.fields action >>= next)
      (liftM (fieldsAt payload position action) >>= next') := by
  rw [← bind_assoc]
  exact (agrees_fieldsAt h position).bind h'

/-- Repeating steps that count nothing counts nothing. -/
theorem repeated_lift (item : Nat → Except DecodeError α) (start count : Nat) :
    repeated (fun index => (liftM (item index) : Counting α)) start count =
      liftM (repeated item start count) := by
  induction count generalizing start with
  | zero => rfl
  | succ count ih => simp only [repeated, liftM_bind, ih, liftM_pure]

/-- Repeating steps that agree. -/
theorem agrees_repeated {item : Nat → Walking α} {item' : Nat → Counting α}
    (h : ∀ index, Agrees payload (item index) (item' index)) (start count : Nat) :
    Agrees payload (repeated item start count) (repeated item' start count) := by
  induction count generalizing start with
  | zero => exact agrees_pure []
  | succ count ih =>
    exact (h start).bind fun a => (ih (start + 1)).bind fun l => agrees_pure (a :: l)

/-! ### The walk agrees with decoding

The walk has the shape of the decoder, so each step takes the lemmas of its parts in their order. -/

/-- The name of a type. -/
theorem agrees_nameOfType (sizes : RecordSizes) (position : Nat) :
    Agrees payload (Walking.nameOfType sizes position)
      (liftM (typeName payload sizes position)) := by
  unfold Walking.nameOfType typeName
  split
  · rw [liftM_bind]
    refine Agrees.fieldsAt_bind readsRecord_u32.keepsBuffer fun name => ?_
    split
    · exact agrees_pure none
    · rw [liftM_bind]
      exact (agrees_text _).bind fun text => agrees_pure (some text)
  · exact agrees_pure none

/-- A type. What the decoder counts down from the greatest depth the walk counts up to it. -/
theorem agrees_typeFrom (sizes : RecordSizes) {levels depth : Nat}
    (h : levels + depth = maxTypeDepth + 1) (position : Nat) :
    Agrees payload (Walking.typeFrom sizes position depth)
      (typeAt payload sizes levels position) := by
  induction levels generalizing depth position with
  | zero =>
    -- the levels that are left run out where the depth is exceeded
    rw [Walking.typeFrom, dif_pos (by omega), typeAt, ← h, Nat.zero_add]
    exact agrees_throw _
  | succ levels ih =>
    rw [Walking.typeFrom, dif_neg (by omega), typeAt_succ]
    refine agrees_beginType.bind fun _ => ?_
    refine Agrees.fieldsAt_bind readsRecord_typeFields.keepsBuffer fun record => ?_
    refine (agrees_nameOfType sizes position).bind fun name => ?_
    refine (agrees_repeated (fun index => ?_) 0 record.memberCount).bind fun members =>
      agrees_pure _
    refine Agrees.fieldsAt_bind readsRecord_threeWords.keepsBuffer fun words => ?_
    refine (agrees_text _).bind fun name => ?_
    exact (ih (by omega) _).bind fun type => agrees_pure _

/-- A variable. -/
theorem agrees_variableHere (sizes : RecordSizes) (position : Nat) :
    Agrees payload (Walking.seek position >>= fun _ => Walking.variableHere sizes)
      (variableAt payload sizes position) := by
  refine Agrees.fieldsAt_bind readsRecord_sixWords.keepsBuffer fun words => ?_
  refine (agrees_text _).bind fun name => ?_
  refine (agrees_typeFrom sizes (Nat.add_zero (maxTypeDepth + 1)) _).bind fun type => ?_
  dsimp only
  split
  · exact agrees_pure _
  · rw [bind_map_left]
    exact Agrees.fieldsAt_bind (readsRecord_bytes _).keepsBuffer fun bytes => agrees_pure _

/-- A constant buffer. -/
theorem agrees_bufferHere (sizes : RecordSizes) (position : Nat) :
    Agrees payload (Walking.seek position >>= fun _ => Walking.bufferHere sizes)
      (bufferAt payload sizes position) := by
  refine Agrees.fieldsAt_bind readsRecord_sixWords.keepsBuffer fun words => ?_
  refine (agrees_text _).bind fun name => ?_
  exact (agrees_repeated (fun index => agrees_variableHere sizes _) 0 _).bind fun vars =>
    agrees_pure _

/-- A binding. -/
theorem agrees_bindingHere (position : Nat) :
    Agrees payload (Walking.seek position >>= fun _ => Walking.bindingHere)
      (liftM (bindingAt payload position)) := by
  unfold bindingAt
  rw [liftM_bind]
  refine Agrees.fieldsAt_bind readsRecord_bindingFields.keepsBuffer fun fields => ?_
  rw [liftM_bind]
  exact (agrees_text _).bind fun name => agrees_pure _

/-- All definitions behind a preamble. -/
theorem agrees_definitionsFrom (p : Preamble) (sizes : RecordSizes) (creator : String) :
    Agrees payload (Walking.definitionsFrom p sizes creator)
      (definitionsFrom payload p sizes creator) := by
  refine (agrees_repeated (fun index => agrees_bufferHere sizes _) 0 _).bind fun buffers => ?_
  rw [← repeated_lift]
  exact (agrees_repeated (fun index => agrees_bindingHere _) 0 _).bind fun bindings => agrees_pure _

/-- The preamble is read by moving the cursor. -/
theorem keepsBuffer_preamble : KeepsBuffer preamble := by
  have hannounced (version : UInt8) : KeepsBuffer (announcedFrom version) := by
    intro c announced c' h
    unfold announcedFrom at h
    split at h
    · rw [announcedSizes_eq] at h
      split at h
      · exact readsRecord_announcement.keepsBuffer c announced c' h
      · exact (readsRecord_pure none).keepsBuffer c announced c' h
    · exact (readsRecord_pure none).keepsBuffer c announced c' h
  rw [preamble_eq]
  exact readsRecord_preambleFields.keepsBuffer.bind fun p =>
    (hannounced p.majorVersion).bind fun announced => (readsRecord_pure _).keepsBuffer

/-- A payload that is decoded with one cursor, and record by record. -/
theorem endsAlike_traverse (payload : Bytes) :
    EndsAlike payload (traverse payload) (counted payload 0) := by
  refine (endsAlike_fields keepsBuffer_preamble _ (Nat.zero_le _)).bind fun p => ?_
  refine (agrees_lift p.recordSizes).bind fun sizes => ?_
  split
  · exact agrees_definitionsFrom p sizes ""
  · exact (agrees_text _).bind fun creator => agrees_definitionsFrom p sizes creator

end

/-- A walk through a payload finds what decoding finds. -/
theorem traverse_fst (payload : Bytes) : (traverse payload).1 = decode payload := by
  rw [decode_eq]
  exact (endsAlike_traverse payload).fst_eq

/-- A walk through a payload begins at most one type record too many. -/
theorem traverse_types_le (payload : Bytes) :
    (traverse payload).2.types ≤ maxTypeRecords + 1 :=
  (endsAlike_traverse payload).types_le

/-- A walk that reaches its end has begun the type records that the definitions are made of. -/
theorem traverse_types {payload : Bytes} {d : ResourceDefinitions}
    (h : decode payload = .ok d) : (traverse payload).2.types = d.recordCount := by
  obtain ⟨-, hcounted, -⟩ := of_decode h
  exact (endsAlike_traverse payload).types_eq hcounted

/-! ### No record depends on where the cursor was left

If a step agrees with one that has no cursor, then its result cannot depend on the cursor. -/

/-- A step of a walk that finds the same wherever in the payload the cursor stands. -/
def CursorFree (payload : Bytes) (step : Walking α) : Prop :=
  ∀ c c' : Cursor, c.data = payload → c'.data = payload → ∀ n ≤ maxTypeRecords,
    (step ⟨c, n⟩).1 = (step ⟨c', n⟩).1

/-- A step that agrees with one without a cursor does not depend on the cursor. -/
theorem Agrees.cursorFree {payload : Bytes} {step : Walking α} {step' : Counting α}
    (h : Agrees payload step step') : CursorFree payload step := by
  intro c c' hdata hdata' n hn
  have hends : (step ⟨c, n⟩).1 = (step' n).map Prod.fst := (h ⟨c, n⟩ hdata hn).fst_eq
  have hends' : (step ⟨c', n⟩).1 = (step' n).map Prod.fst := (h ⟨c', n⟩ hdata' hn).fst_eq
  exact hends.trans hends'.symm

/-- **Decoding is done record by record.** A walk with one cursor finds the definitions that
decoding finds. They are what the records of the payload say, and no others are: each record is
found at its own position, and none depends on where the cursor was left by another one. -/
theorem traverse_record_by_record {payload : Bytes} {d : ResourceDefinitions}
    (h : decode payload = .ok d) :
    (traverse payload).1 = .ok d ∧ Recorded payload d ∧ (∀ d', Recorded payload d' → d' = d) ∧
      ∀ (sizes : RecordSizes) (position : Nat),
        CursorFree payload (Walking.seek position >>= fun _ => Walking.bufferHere sizes) ∧
        CursorFree payload (Walking.seek position >>= fun _ => Walking.variableHere sizes) ∧
        CursorFree payload (Walking.seek position >>= fun _ => Walking.bindingHere) ∧
        ∀ depth ≤ maxTypeDepth, CursorFree payload (Walking.typeFrom sizes position depth) := by
  obtain ⟨hrecorded, -⟩ := of_decode h
  refine ⟨(traverse_fst payload).trans h, hrecorded, fun d' hd' => hd'.unique hrecorded, ?_⟩
  intro sizes position
  refine ⟨(agrees_bufferHere sizes position).cursorFree,
    (agrees_variableHere sizes position).cursorFree,
    (agrees_bindingHere position).cursorFree, ?_⟩
  intro depth hdepth
  have hlevels : maxTypeDepth + 1 - depth + depth = maxTypeDepth + 1 := by omega
  exact (agrees_typeFrom sizes hlevels position).cursorFree

/-- A payload with a buffer of two variables, the later one first: a structure, whose member is a
number, and a number with a default value. -/
def twoVariables : Bytes := #[
  1, 0, 0, 0, 28, 0, 0, 0, 1, 0, 0, 0, 144, 0, 0, 0, 0, 4, 255, 255, 0, 0, 0, 0, 0, 0, 0, 0,
  -- the buffer, at 28
  176, 0, 0, 0, 2, 0, 0, 0, 52, 0, 0, 0, 32, 0, 0, 0, 0, 0, 0, 0, 0, 0, 0, 0,
  -- its variables, at 52
  178, 0, 0, 0, 16, 0, 0, 0, 4, 0, 0, 0, 2, 0, 0, 0, 116, 0, 0, 0, 0, 0, 0, 0,
  180, 0, 0, 0, 0, 0, 0, 0, 4, 0, 0, 0, 2, 0, 0, 0, 100, 0, 0, 0, 24, 0, 0, 0,
  -- the type of a number, at 100
  0, 0, 3, 0, 1, 0, 1, 0, 0, 0, 0, 0, 0, 0, 0, 0,
  -- the type of a structure, at 116, and its member
  5, 0, 0, 0, 1, 0, 1, 0, 0, 0, 1, 0, 132, 0, 0, 0,
  182, 0, 0, 0, 100, 0, 0, 0, 0, 0, 0, 0,
  -- a binding, at 144
  176, 0, 0, 0, 0, 0, 0, 0, 0, 0, 0, 0, 0, 0, 0, 0, 0, 0, 0, 0, 0, 0, 0, 0, 1, 0, 0, 0, 0, 0, 0, 0,
  -- the names, at 176
  98, 0, 115, 0, 120, 0, 109, 0]

/-- The payload can be decoded. -/
theorem exists_decode_twoVariables : ∃ d, decode twoVariables = .ok d := by
  have hsome : (decode twoVariables).toOption.isSome = true := by decide +kernel
  cases h : decode twoVariables with
  | error e =>
    rw [h] at hsome
    cases hsome
  | ok d => exact ⟨d, rfl⟩

/-- One cursor finds its way through this payload, where the later variable comes first. -/
theorem record_by_record_of_twoVariables : ∃ d, decode twoVariables = .ok d ∧
    (traverse twoVariables).1 = .ok d ∧ Recorded twoVariables d := by
  obtain ⟨d, hd⟩ := exists_decode_twoVariables
  obtain ⟨htraverse, hrecorded, -⟩ := traverse_record_by_record hd
  exact ⟨d, hd, htraverse, hrecorded⟩

end ResourceDefinitions
end ShaderBytecode
