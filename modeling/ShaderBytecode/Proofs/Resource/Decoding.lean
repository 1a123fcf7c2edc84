import ShaderBytecode.Proofs.Resource.Records

/-!
# Decoding finds what the records say

Whatever a step of decoding returns is what stands in the payload:

    expands_typeAt : Expands (typeAt payload sizes levels position) fun type k => …
    of_decode : decode payload = .ok d → Recorded payload d ∧ …

Decoding also counts the type records that it expands. `Expands` tells of a step what it returns
together with the number of records that went into it, so that the number of records in a result and
the depth of its types come out of the same induction as the result itself.

A failure says nothing here: the statements are about results that are there. That decoding does
fail where a record count or a depth is exceeded comes from the counter, which refuses to go on.
-/

namespace ShaderBytecode
namespace ResourceDefinitions

/-! ### Fields

Each record is read as one action with a fixed width, so that it is known by the words at its
position (`ReadsRecord`). Records that are longer than that are no problem, since what follows in
them is not read. -/

open Decode

/-- Three words, as the record of a member begins with. -/
def threeWords : Decode (UInt32 × UInt32 × UInt32) := do
  return (← Cursor.u32, ← Cursor.u32, ← Cursor.u32)

/-- The words of a member record. -/
theorem readsRecord_threeWords :
    ReadsRecord threeWords 12
      fun data p => .ok (data.wordAt p, data.wordAt (p + 4), data.wordAt (p + 8)) :=
  readsRecord_u32.bind fun _ => readsRecord_u32.bind fun _ => readsRecord_u32.bind fun _ =>
    readsRecord_pure _

/-- Six words, as the records of variables and buffers are made of. -/
def sixWords : Decode (UInt32 × UInt32 × UInt32 × UInt32 × UInt32 × UInt32) := do
  return (← Cursor.u32, ← Cursor.u32, ← Cursor.u32, ← Cursor.u32, ← Cursor.u32, ← Cursor.u32)

/-- The words of a variable or buffer record. -/
theorem readsRecord_sixWords :
    ReadsRecord sixWords 24
      fun data p => .ok (data.wordAt p, data.wordAt (p + 4), data.wordAt (p + 8),
        data.wordAt (p + 12), data.wordAt (p + 16), data.wordAt (p + 20)) :=
  readsRecord_u32.bind fun _ => readsRecord_u32.bind fun _ => readsRecord_u32.bind fun _ =>
    readsRecord_u32.bind fun _ => readsRecord_u32.bind fun _ => readsRecord_u32.bind fun _ =>
    readsRecord_pure _

/-- The fields of a type record. The class is the only code for which there may be no value. -/
theorem readsRecord_typeFields :
    ReadsRecord typeFields 16 fun data p =>
      (VariableClass.ofCode (data.halfAt p)).map fun variableClass =>
        ⟨⟨variableClass, ComponentBase.ofCode (data.halfAt (p + 2)), data.halfAt (p + 4),
          data.halfAt (p + 6), data.halfAt (p + 8), none⟩, (data.halfAt (p + 10)).toNat,
          (data.wordAt (p + 12)).toNat⟩ :=
  readsRecord_u16.bind fun code => (readsRecord_lift (VariableClass.ofCode code)).bind fun _ =>
    readsRecord_u16.bind fun _ => readsRecord_u16.bind fun _ => readsRecord_u16.bind fun _ =>
    readsRecord_u16.bind fun _ => readsRecord_u16.bind fun _ => readsRecord_u32.bind fun _ =>
    readsRecord_pure _

/-- The position of the name of a binding, and the binding of a name. -/
def bindingFields : Decode (UInt32 × (String → ResourceBinding)) := do
  let name ← Cursor.u32
  let kind := BindingKind.ofCode (← Cursor.u32)
  let returnType := ReturnType.ofCode (← Cursor.u32)
  let dimension := Dimension.ofViewCode (← Cursor.u32)
  let sampleCount ← Cursor.u32
  let bindPoint ← Cursor.u32
  let bindCount ← Cursor.u32
  let flags ← Cursor.u32
  return (name, fun name =>
    ⟨name, kind, returnType, dimension, sampleCount, bindPoint, bindCount, flags⟩)

/-- The fields of a binding record. -/
theorem readsRecord_bindingFields :
    ReadsRecord bindingFields 32
      fun data p => .ok (data.wordAt p, fun name =>
        ⟨name, BindingKind.ofCode (data.wordAt (p + 4)), ReturnType.ofCode (data.wordAt (p + 8)),
          Dimension.ofViewCode (data.wordAt (p + 12)), data.wordAt (p + 16),
          data.wordAt (p + 20), data.wordAt (p + 24), data.wordAt (p + 28)⟩) :=
  readsRecord_u32.bind fun _ => readsRecord_u32.bind fun _ => readsRecord_u32.bind fun _ =>
    readsRecord_u32.bind fun _ => readsRecord_u32.bind fun _ => readsRecord_u32.bind fun _ =>
    readsRecord_u32.bind fun _ => readsRecord_u32.bind fun _ => readsRecord_pure _

/-- The fields in front of the announced sizes. -/
def preambleFields : Decode Preamble := do
  let bufferCount ← Cursor.u32
  let bufferPosition ← Cursor.u32
  let bindingCount ← Cursor.u32
  let bindingPosition ← Cursor.u32
  let minorVersion ← Cursor.u8
  let majorVersion ← Cursor.u8
  let stage ← Stage.ofResourceCode (← Cursor.u16)
  let flags ← Cursor.u32
  let creatorPosition ← Cursor.u32
  return ⟨bufferCount.toNat, bufferPosition.toNat, bindingCount.toNat, bindingPosition.toNat,
    minorVersion, majorVersion, stage, flags, creatorPosition.toNat, none⟩

/-- The announced sizes, which definitions of older versions do not have. -/
def announcedFrom (version : UInt8) : Decode (Option AnnouncedSizes) :=
  if announcingVersion ≤ version then announcedSizes else pure none

/-- What comes behind the announced sizes comes behind both cases. -/
theorem announcedFrom_bind (version : UInt8) (next : Option AnnouncedSizes → Decode α) :
    announcedFrom version >>= next =
      if announcingVersion ≤ version then announcedSizes >>= next else next none := by
  unfold announcedFrom
  split
  · rfl
  · exact pure_bind none next

/-- A preamble is fields of a fixed width, and behind them sizes that may be missing. -/
theorem preamble_eq : preamble = (do
    let p ← preambleFields
    let announced ← announcedFrom p.majorVersion
    return { p with announced := announced }) := by
  simp only [preamble, preambleFields, bind_assoc, pure_bind, announcedFrom_bind]

/-- The fields of a preamble. -/
theorem readsRecord_preambleFields :
    ReadsRecord preambleFields 28 fun data p =>
      (Stage.ofResourceCode (data.halfAt (p + 18))).map fun stage =>
        ⟨(data.wordAt p).toNat, (data.wordAt (p + 4)).toNat, (data.wordAt (p + 8)).toNat,
          (data.wordAt (p + 12)).toNat, data.byteAt (p + 16), data.byteAt (p + 17), stage,
          data.wordAt (p + 20), (data.wordAt (p + 24)).toNat, none⟩ :=
  readsRecord_u32.bind fun _ => readsRecord_u32.bind fun _ => readsRecord_u32.bind fun _ =>
    readsRecord_u32.bind fun _ => readsRecord_u8.bind fun _ => readsRecord_u8.bind fun _ =>
    readsRecord_u16.bind fun code => (readsRecord_lift (Stage.ofResourceCode code)).bind fun _ =>
    readsRecord_u32.bind fun _ => readsRecord_u32.bind fun _ => readsRecord_pure _

/-- The announced sizes behind their tag. -/
def announcement : Decode (Option AnnouncedSizes) := do
  let _ ← Cursor.take 4
  return some ⟨← Cursor.u32, ← Cursor.u32, ← Cursor.u32, ← Cursor.u32, ← Cursor.u32, ← Cursor.u32,
    ← Cursor.u32⟩

/-- The fields behind the tag of an announcement. -/
theorem readsRecord_announcement :
    ReadsRecord announcement 32
      fun data p => .ok (some ⟨data.wordAt (p + 4), data.wordAt (p + 8), data.wordAt (p + 12),
        data.wordAt (p + 16), data.wordAt (p + 20), data.wordAt (p + 24),
        data.wordAt (p + 28)⟩) :=
  (readsRecord_bytes 4).bind fun _ => readsRecord_u32.bind fun _ => readsRecord_u32.bind fun _ =>
    readsRecord_u32.bind fun _ => readsRecord_u32.bind fun _ => readsRecord_u32.bind fun _ =>
    readsRecord_u32.bind fun _ => readsRecord_u32.bind fun _ => readsRecord_pure _

/-! ### Steps that count

The counter is threaded through all steps, and a step may only increase it. What is said of a step
is therefore about the difference, and differences add up along a sequence of steps. -/

/-- What a step returns, and how many type records it has counted: both are as `P` says, and the
records counted so far are no more than there may be. -/
def Expands (step : Counting α) (P : α → Nat → Prop) : Prop :=
  ∀ a n n', n ≤ maxTypeRecords → step n = .ok (a, n') →
    ∃ k, n' = n + k ∧ n' ≤ maxTypeRecords ∧ P a k

/-- A result that is there counts nothing. -/
theorem expands_pure {P : α → Nat → Prop} {a : α} (h : P a 0) :
    Expands (pure a : Counting α) P := by
  intro a' n n' hn hok
  cases hok
  exact ⟨0, rfl, hn, h⟩

/-- A step that does more than is asked for. -/
theorem Expands.imp {step : Counting α} {P Q : α → Nat → Prop} (h : Expands step P)
    (h' : ∀ a k, P a k → Q a k) : Expands step Q := by
  intro a n n' hn hok
  obtain ⟨k, hk, hle, ha⟩ := h a n n' hn hok
  exact ⟨k, hk, hle, h' a k ha⟩

/-- The counter refuses one record too many. -/
theorem countType_eq (n : Nat) : countType n =
    if maxTypeRecords < n + 1 then .error (.unsupported .typeCount (n + 1))
    else .ok ((), n + 1) := by
  change (if maxTypeRecords < n + 1 then _ else _ : Counting Unit) (n + 1) = _
  split <;> rfl

/-- The counter counts one. -/
theorem expands_countType : Expands countType fun _ k => k = 1 := by
  intro a n n' _ hok
  rw [countType_eq] at hok
  split at hok
  · cases hok
  · next hle =>
    cases hok
    exact ⟨1, rfl, Nat.not_lt.1 hle, rfl⟩

/-- A step that fails says nothing. -/
theorem expands_throw (e : DecodeError) (P : α → Nat → Prop) :
    Expands (throw e : Counting α) P := by
  intro a n n' _ hok
  cases hok

/-- The counts of two steps add up. -/
theorem Expands.bind {step : Counting α} {next : α → Counting β} {P : α → Nat → Prop}
    {Q : β → Nat → Prop} (h : Expands step P)
    (h' : ∀ a k, P a k → Expands (next a) fun b k' => Q b (k + k')) :
    Expands (step >>= next) Q := by
  intro b n n' hn hok
  obtain ⟨⟨a, m⟩, ha, hb⟩ := bind_eq_ok_iff.1 hok
  obtain ⟨k, rfl, hm, hk⟩ := h a n m hn ha
  obtain ⟨k', rfl, hn', hk'⟩ := h' a k hk b _ n' hm hb
  exact ⟨k + k', Nat.add_assoc n k k', hn', hk'⟩

/-- A result that counts nothing, and what comes after it. -/
theorem Expands.lift_bind {x : Except DecodeError α} {next : α → Counting β}
    {P : β → Nat → Prop} (h : ∀ a, x = .ok a → Expands (next a) P) :
    Expands (liftM x >>= next) P := by
  intro b n n' hn hok
  cases x with
  | error e => cases hok
  | ok a => exact h a rfl b n n' hn hok

/-- Items that are decoded one after the other, each with a weight. -/
theorem expands_repeated {item : Nat → Counting α} {weight : α → Nat} {P : Nat → α → Prop}
    (h : ∀ index, Expands (item index) fun a k => k = weight a ∧ P index a) (start count : Nat) :
    Expands (repeated item start count) fun l k =>
      k = (l.map weight).sum ∧ l.length = count ∧
        ∀ index a, l[index]? = some a → P (start + index) a := by
  induction count generalizing start with
  | zero => exact expands_pure ⟨rfl, rfl, by simp⟩
  | succ count ih =>
    refine (h start).bind fun a k hk => (ih (start + 1)).bind fun l k' hl => expands_pure ?_
    obtain ⟨rfl, ha⟩ := hk
    obtain ⟨rfl, hlength, hl⟩ := hl
    refine ⟨by simp, by simp [hlength], fun index b hb => ?_⟩
    cases index with
    | zero => cases hb; exact ha
    | succ index =>
      rw [← Nat.succ_add_eq_add_succ]
      exact hl index b hb

/-! ### Decoding finds what stands there

One lemma for each step of the decoder, from the name of a type up to all definitions. They are
proved in the order in which the steps use one another. -/

/-- The name of a type that is found is the recorded one. -/
theorem typeNameRecorded_of_typeName {payload : Bytes} {sizes : RecordSizes} {position : Nat}
    {name : Option String} (h : typeName payload sizes position = .ok name) :
    TypeNameRecorded payload sizes position name := by
  unfold typeName at h
  unfold TypeNameRecorded
  split
  · next hnewer =>
    rw [if_pos hnewer] at h
    obtain ⟨word, hword, h⟩ := bind_eq_ok_iff.1 h
    obtain ⟨hroom, hword⟩ := (fieldsAt_eq_ok_iff readsRecord_u32).1 hword
    cases hword
    -- the name is read where it is recorded, unless there is none
    refine ⟨by unfold RecordSizes.least at hnewer; dsimp only at hnewer; omega, ?_⟩
    split at h
    · next hzero =>
      cases h
      exact hzero
    · next hzero =>
      obtain ⟨text, htext, h⟩ := bind_eq_ok_iff.1 h
      cases h
      exact ⟨hzero, stringAt_eq_ok_iff.1 htext⟩
  · next holder =>
    rw [if_neg holder] at h
    cases h
    rfl

/-- The member whose record stands at a position, with a type that may be nested `levels - 1` levels
deep. -/
def memberAt (payload : Bytes) (sizes : RecordSizes) (levels position : Nat) :
    Counting (String × UInt32 × VariableType) := do
  let (name, type, offset) ← fieldsAt payload position threeWords
  let name ← stringAt payload name.toNat
  let type ← typeAt payload sizes levels type.toNat
  return (name, offset, type)

/-- A type is counted, and then its record, its name and its members are read. -/
theorem typeAt_succ (payload : Bytes) (sizes : RecordSizes) (levels position : Nat) :
    typeAt payload sizes (levels + 1) position = (do
      countType
      let record ← fieldsAt payload position typeFields
      let name ← typeName payload sizes position
      let members ← repeated (fun index => memberAt payload sizes levels
        (record.memberPosition + index * memberRecordBytes)) 0 record.memberCount
      return .mk { record.shape with name := name } (.ofList members)) :=
  rfl

section

variable (payload : Bytes) (sizes : RecordSizes)

/-- A member that is found is the recorded one, if that holds of its type. -/
theorem expands_memberAt {levels : Nat}
    (h : ∀ position, Expands (typeAt payload sizes levels position) fun type k =>
      k = type.recordCount ∧ type.depth < levels ∧ TypeRecorded payload sizes position type)
    (position : Nat) :
    Expands (memberAt payload sizes levels position) fun m k =>
      k = m.2.2.recordCount ∧ m.2.2.depth < levels ∧
        MemberRecorded payload position m.1 m.2.1 ∧
        TypeRecorded payload sizes (positionAt payload (position + 4)) m.2.2 := by
  refine Expands.lift_bind fun words hwords => ?_
  obtain ⟨hroom, hwords⟩ := (fieldsAt_eq_ok_iff readsRecord_threeWords).1 hwords
  cases hwords
  refine Expands.lift_bind fun name hname => ?_
  refine (h _).bind fun type k htype => expands_pure ?_
  obtain ⟨rfl, hdepth, htype⟩ := htype
  exact ⟨rfl, hdepth, ⟨hroom, stringAt_eq_ok_iff.1 hname, rfl⟩, htype⟩

/-- A type that is found is the recorded one. The induction is on the levels that are left. -/
theorem expands_typeAt (levels position : Nat) :
    Expands (typeAt payload sizes levels position) fun type k =>
      k = type.recordCount ∧ type.depth < levels ∧ TypeRecorded payload sizes position type := by
  induction levels generalizing position with
  | zero => exact expands_throw _ _
  | succ levels ih =>
    rw [typeAt_succ]
    refine expands_countType.bind fun _ k hk => ?_
    refine Expands.lift_bind fun record hrecord => ?_
    refine Expands.lift_bind fun name hname => ?_
    obtain ⟨hroom, hrecord⟩ := (fieldsAt_eq_ok_iff readsRecord_typeFields).1 hrecord
    obtain ⟨variableClass, hclass, rfl⟩ := map_eq_ok_iff.1 hrecord
    refine (expands_repeated (fun index => expands_memberAt payload sizes ih _) 0 _).bind
      fun members k' hmembers => expands_pure ?_
    obtain ⟨rfl, hlength, hmembers⟩ := hmembers
    simp only [Nat.zero_add] at hmembers
    -- the counter: one for the record itself and the rest for the members
    refine ⟨?_, ?_, ?_⟩
    · -- the record itself was counted first, those of its members behind it
      rw [VariableType.recordCount, Members.recordCount_ofList, hk, Nat.add_comm]
    · refine Nat.lt_succ_of_le (Members.depth_ofList_le_iff.2 fun m hm => ?_)
      obtain ⟨index, hindex⟩ := List.mem_iff_getElem?.1 hm
      exact (hmembers index m hindex).1
    · exact .mk ⟨hroom, hclass, rfl, rfl, rfl, rfl, typeNameRecorded_of_typeName hname⟩ hlength
        (fun index m hm => (hmembers index m hm).2.1) fun index m hm => (hmembers index m hm).2.2

/-- A variable that is found is the recorded one. -/
theorem expands_variableAt (position : Nat) :
    Expands (variableAt payload sizes position) fun v k =>
      k = v.type.recordCount ∧ v.type.depth ≤ maxTypeDepth ∧
        VariableRecorded payload sizes position v := by
  refine Expands.lift_bind fun words hwords => ?_
  obtain ⟨hroom, hwords⟩ := (fieldsAt_eq_ok_iff readsRecord_sixWords).1 hwords
  cases hwords
  refine Expands.lift_bind fun name hname => ?_
  refine (expands_typeAt payload sizes _ _).bind fun type k htype => ?_
  obtain ⟨rfl, hdepth, htype⟩ := htype
  -- whichever way the default value is found, the variable is complete with it
  have hdone (default : Option Bytes) (hdefault : DefaultRecorded payload
      (positionAt payload (position + 20)) (payload.wordAt (position + 8)).toNat default) :
      Expands (pure ⟨name, payload.wordAt (position + 4), payload.wordAt (position + 8),
          payload.wordAt (position + 12), type, default⟩ : Counting Variable)
        fun v k => type.recordCount + k = v.type.recordCount ∧ v.type.depth ≤ maxTypeDepth ∧
          VariableRecorded payload sizes position v :=
    expands_pure ⟨rfl, Nat.le_of_lt_succ hdepth,
      ⟨hroom, stringAt_eq_ok_iff.1 hname, rfl, rfl, rfl, htype, hdefault⟩⟩
  dsimp only
  split
  · next hzero => exact hdone none (congrArg UInt32.toNat hzero)
  · next hne =>
    rw [bind_map_left]
    refine Expands.lift_bind fun bytes hbytes => ?_
    obtain ⟨hend, hbytes⟩ := (fieldsAt_eq_ok_iff (readsRecord_bytes _)).1 hbytes
    cases hbytes
    exact hdone _ ⟨fun hzero => hne (UInt32.toNat_inj.1 hzero), hend, rfl⟩

/-- Sorting by offset is stable. -/
theorem stablySorted_sortByOffset (vars : List Variable) :
    StablySorted Variable.offset vars (sortByOffset vars) := by
  have htrans (a b c : Variable) (hab : decide (a.offset ≤ b.offset) = true)
      (hbc : decide (b.offset ≤ c.offset) = true) : decide (a.offset ≤ c.offset) = true := by
    simp only [decide_eq_true_eq] at *
    exact UInt32.le_trans hab hbc
  have htotal (a b : Variable) :
      (decide (a.offset ≤ b.offset) || decide (b.offset ≤ a.offset)) = true := by
    simpa using UInt32.le_total a.offset b.offset
  have hperm : (sortByOffset vars).Perm vars := List.mergeSort_perm vars _
  refine ⟨hperm, ?_, fun k => ?_⟩
  · have hsorted := List.pairwise_mergeSort htrans htotal vars
    exact hsorted.imp fun hle => of_decide_eq_true hle
  · -- variables of one offset are in order already, so sorting keeps their order
    have hkept : (vars.filter (·.offset == k)).Sublist (sortByOffset vars) := by
      apply List.sublist_mergeSort htrans htotal _ List.filter_sublist
      apply List.pairwise_of_forall_mem_list
      intro v hv w hw
      rw [List.mem_filter, beq_iff_eq] at hv hw
      rw [hv.2, hw.2]
      exact decide_eq_true (UInt32.le_refl k)
    have hfilter := hkept.filter (·.offset == k)
    rw [List.filter_filter] at hfilter
    simp only [Bool.and_self] at hfilter
    exact (hfilter.eq_of_length (hperm.filter _).length_eq.symm).symm

/-- A buffer that is found is the recorded one, with its variables sorted. -/
theorem expands_bufferAt (position : Nat) :
    Expands (bufferAt payload sizes position) fun b k =>
      k = b.recordCount ∧ (∀ v ∈ b.vars, v.type.depth ≤ maxTypeDepth) ∧
        BufferRecorded payload sizes position b := by
  refine Expands.lift_bind fun words hwords => ?_
  -- the record of the buffer, its name, its variables, and their order
  obtain ⟨hroom, hwords⟩ := (fieldsAt_eq_ok_iff readsRecord_sixWords).1 hwords
  cases hwords
  refine Expands.lift_bind fun name hname => ?_
  refine (expands_repeated (fun index => expands_variableAt payload sizes _) 0 _).bind
    fun vars k hvars => expands_pure ?_
  obtain ⟨rfl, hlength, hvars⟩ := hvars
  simp only [Nat.zero_add] at hvars
  have hsorted := stablySorted_sortByOffset vars
  refine ⟨?_, fun v hv => ?_, ?_⟩
  · exact ((hsorted.perm.map fun v : Variable => v.type.recordCount).sum_nat).symm
  · obtain ⟨index, hindex⟩ := List.mem_iff_getElem?.1 (hsorted.perm.mem_iff.1 hv)
    exact (hvars index v hindex).1
  · exact ⟨hroom, stringAt_eq_ok_iff.1 hname,
      ⟨vars, hlength, fun index v hv => (hvars index v hv).2, hsorted⟩, rfl, rfl, rfl⟩

end

/-- A binding that is found is the recorded one. -/
theorem bindingRecorded_of_bindingAt {payload : Bytes} {position : Nat} {b : ResourceBinding}
    (h : bindingAt payload position = .ok b) : BindingRecorded payload position b := by
  obtain ⟨⟨name, binding⟩, hfields, h⟩ := bind_eq_ok_iff.1 h
  obtain ⟨hroom, hfields⟩ := (fieldsAt_eq_ok_iff readsRecord_bindingFields).1 hfields
  cases hfields
  obtain ⟨text, htext, h⟩ := bind_eq_ok_iff.1 h
  cases h
  exact ⟨hroom, stringAt_eq_ok_iff.1 htext, rfl, rfl, rfl, rfl, rfl, rfl, rfl⟩

/-- The sizes are announced if their tag stands in front of them. -/
theorem announcedSizes_eq (c : Cursor) :
    announcedSizes c =
      if c.data.extract c.position (c.position + 4) = announcementTag.toArray
        then announcement c else .ok (none, c) := by
  -- a tag is there only if there are four bytes for it
  have hpeek : (c.peek 4).toOption = some announcementTag.toArray ↔
      c.data.extract c.position (c.position + 4) = announcementTag.toArray := by
    unfold Cursor.peek
    by_cases hroom : c.position + 4 ≤ c.data.size
    · rw [Cursor.take_eq_ok hroom]
      exact Option.some_inj (a := c.data.extract c.position (c.position + 4))
    · rw [Cursor.take_eq_error (Nat.not_le.1 hroom)]
      refine ⟨(by intro h; cases h), fun h => ?_⟩
      have hsize : (c.data.extract c.position (c.position + 4)).size = 4 := by rw [h]; rfl
      rw [Array.size_extract] at hsize
      omega
  change (if (c.peek 4).toOption != some announcementTag.toArray then pure none
    else announcement : Decode (Option AnnouncedSizes)) c = _
  by_cases htag : c.data.extract c.position (c.position + 4) = announcementTag.toArray
  · rw [if_pos htag, if_neg (by simpa using hpeek.2 htag)]
  · rw [if_neg htag, if_pos (by simpa using fun h => htag (hpeek.1 h))]
    rfl

/-- What is announced is recorded behind the preamble. -/
theorem announcementRecorded {payload : Bytes} {announced : Option AnnouncedSizes} {c : Cursor}
    (hroom : preambleBytes ≤ payload.size)
    (h : announcedFrom (payload.byteAt 17) ⟨payload, preambleBytes, hroom⟩ =
      .ok (announced, c)) :
    AnnouncementRecorded payload announced := by
  unfold announcedFrom at h
  split at h
  · next hversion =>
    rw [announcedSizes_eq] at h
    split at h
    · next htag =>
      -- the sizes behind the tag are read only if there is room for them
      by_cases hend : preambleBytes + 32 ≤ payload.size
      · rw [readsRecord_announcement.eq_of_le _ hend] at h
        cases h
        exact ⟨hversion, htag, hend, rfl⟩
      · obtain ⟨e, he⟩ := readsRecord_announcement.of_lt ⟨payload, preambleBytes, hroom⟩
          (Nat.not_le.1 hend)
        cases he.symm.trans h
    · next htag =>
      cases h
      exact .inr htag
  · next hversion =>
    cases h
    exact .inl (UInt8.not_le.1 hversion)

/-- What a preamble that was decoded says. -/
theorem of_preamble {payload : Bytes} {p : Preamble}
    (h : fieldsAt payload 0 preamble = .ok p) :
    preambleBytes ≤ payload.size ∧ AnnouncementRecorded payload p.announced ∧
      ∃ stage, Stage.ofResourceCode (payload.halfAt 18) = .ok stage ∧
        p = ⟨positionAt payload 0, positionAt payload 4, positionAt payload 8,
          positionAt payload 12, payload.byteAt 16, payload.byteAt 17, stage, payload.wordAt 20,
          positionAt payload 24, p.announced⟩ := by
  obtain ⟨_, c, hp⟩ := fieldsAt_eq_ok.1 h
  rw [preamble_eq] at hp
  obtain ⟨hroom, fields, hfields, hp⟩ := readsRecord_preambleFields.bind_eq_ok_iff.1 hp
  obtain ⟨stage, hstage, rfl⟩ := map_eq_ok_iff.1 hfields
  obtain ⟨⟨announced, c'⟩, hannounced, hp⟩ := bind_eq_ok_iff.1 hp
  cases hp
  exact ⟨hroom, announcementRecorded hroom hannounced, stage, hstage, rfl⟩

/-- Sizes that are accepted are taken as they were announced. -/
theorem RecordSizes.of_ofAnnounced {a : AnnouncedSizes} {sizes : RecordSizes}
    (h : ofAnnounced a = .ok sizes) :
    sizes = ⟨a.variableBytes.toNat, a.typeBytes.toNat, a.bindingBytes.toNat⟩ := by
  have hcheck {size : UInt32} {bound n : Nat}
      (h : (if size.toNat < bound then .error (.unsupported .recordSize size.toNat)
        else .ok size.toNat : Except DecodeError Nat) = .ok n) : n = size.toNat := by
    split at h
    · cases h
    · cases h
      rfl
  obtain ⟨variableBytes, hvariable, h⟩ := bind_eq_ok_iff.1 h
  obtain ⟨typeBytes, htype, h⟩ := bind_eq_ok_iff.1 h
  obtain ⟨bindingBytes, hbinding, h⟩ := bind_eq_ok_iff.1 h
  cases h
  rw [hcheck hvariable, hcheck htype, hcheck hbinding]

/-- The definitions whose records follow a preamble. -/
def definitionsFrom (payload : Bytes) (p : Preamble) (sizes : RecordSizes) (creator : String) :
    Counting ResourceDefinitions := do
  let buffers ← repeated
    (fun index => bufferAt payload sizes (p.bufferPosition + index * bufferRecordBytes))
    0 p.bufferCount
  let bindings ← (repeated
    (fun index => bindingAt payload (p.bindingPosition + index * sizes.bindingBytes)) 0
    p.bindingCount : Except DecodeError (List ResourceBinding))
  return ⟨p.majorVersion, p.minorVersion, p.stage, p.flags, creator, p.announced, buffers,
    bindings⟩

/-- Decoding that says how many type records it has expanded. -/
def counted (payload : Bytes) : Counting ResourceDefinitions := do
  let p ← fieldsAt payload 0 preamble
  let sizes ← p.recordSizes
  if p.creatorPosition = 0 then definitionsFrom payload p sizes ""
  else stringAt payload p.creatorPosition >>= definitionsFrom payload p sizes

/-- The result of a step that begins with another one. -/
theorem map_fst_bind (step : Counting α) (next : α → Counting β) (n : Nat) :
    ((step >>= next) n).map Prod.fst = step n >>= fun r => (next r.1 r.2).map Prod.fst := by
  simp only [bind, StateT.bind]
  cases step n <;> rfl

/-- The result of a step that begins with one that counts nothing. -/
theorem map_fst_lift_bind (x : Except DecodeError α) (next : α → Counting β) (n : Nat) :
    ((liftM x >>= next : Counting β) n).map Prod.fst = x >>= fun a => (next a n).map Prod.fst := by
  cases x <;> rfl

/-- What is counted does not change what the definitions are. -/
theorem map_fst_definitionsFrom (payload : Bytes) (p : Preamble) (sizes : RecordSizes)
    (creator : String) : (definitionsFrom payload p sizes creator 0).map Prod.fst = (do
      let (buffers, _) ← (repeated
        (fun index => bufferAt payload sizes (p.bufferPosition + index * bufferRecordBytes))
        0 p.bufferCount : Counting (List ConstantBuffer)) 0
      let bindings ← repeated
        (fun index => bindingAt payload (p.bindingPosition + index * sizes.bindingBytes)) 0
        p.bindingCount
      return ⟨p.majorVersion, p.minorVersion, p.stage, p.flags, creator, p.announced, buffers,
        bindings⟩) := by
  rw [definitionsFrom, map_fst_bind]
  congr 1
  funext r
  exact map_fst_lift_bind _ _ _

/-- Decoding is decoding with a counter that is thrown away in the end. -/
theorem decode_eq (payload : Bytes) : decode payload = (counted payload 0).map Prod.fst := by
  simp only [decode, counted, map_fst_lift_bind, ← map_fst_definitionsFrom, pure_bind]
  congr 1
  funext p
  congr 1
  funext sizes
  split
  · rfl
  · rw [map_fst_lift_bind]

/-- The definitions whose records follow a preamble are what these records say. -/
theorem expands_definitionsFrom (payload : Bytes) (p : Preamble) (sizes : RecordSizes)
    (creator : String) :
    Expands (definitionsFrom payload p sizes creator) fun d k =>
      k = d.recordCount ∧ (∀ b ∈ d.buffers, ∀ v ∈ b.vars, v.type.depth ≤ maxTypeDepth) ∧
        d.buffers.length = p.bufferCount ∧
        (∀ index b, d.buffers[index]? = some b →
          BufferRecorded payload sizes (p.bufferPosition + index * bufferRecordBytes) b) ∧
        d.bindings.length = p.bindingCount ∧
        (∀ index b, d.bindings[index]? = some b →
          BindingRecorded payload (p.bindingPosition + index * sizes.bindingBytes) b) ∧
        d = ⟨p.majorVersion, p.minorVersion, p.stage, p.flags, creator, p.announced, d.buffers,
          d.bindings⟩ := by
  refine (expands_repeated (fun index => expands_bufferAt payload sizes _) 0 _).bind
    fun buffers k hbuffers => ?_
  refine Expands.lift_bind fun bindings hbindings => expands_pure ?_
  obtain ⟨rfl, hlength, hbuffers⟩ := hbuffers
  obtain ⟨hlength', hbindings⟩ := repeated_eq_ok_iff.1 hbindings
  simp only [Nat.zero_add] at hbuffers hbindings
  refine ⟨rfl, fun b hb => ?_, hlength, fun index b hb => (hbuffers index b hb).2, hlength',
    fun index b hb => bindingRecorded_of_bindingAt (hbindings index b hb), rfl⟩
  obtain ⟨index, hindex⟩ := List.mem_iff_getElem?.1 hb
  exact (hbuffers index b hindex).1

/-- The record sizes are those that the definitions announce. -/
theorem recordSizes_eq {p : Preamble} {d : ResourceDefinitions} {sizes : RecordSizes}
    (h : p.recordSizes = .ok sizes) (hannounced : d.announced = p.announced) :
    sizes = d.recordSizes := by
  rw [Preamble.recordSizes, ← hannounced] at h
  unfold recordSizes
  cases hsizes : d.announced with
  | none =>
    rw [hsizes] at h
    cases h
    rfl
  | some a =>
    rw [hsizes] at h
    exact RecordSizes.of_ofAnnounced h

/-- Everything that is found is recorded. -/
theorem expands_counted (payload : Bytes) :
    Expands (counted payload) fun d k =>
      k = d.recordCount ∧ (∀ b ∈ d.buffers, ∀ v ∈ b.vars, v.type.depth ≤ maxTypeDepth) ∧
        Recorded payload d := by
  refine Expands.lift_bind fun p hp => ?_
  refine Expands.lift_bind fun sizes hsizes => ?_
  obtain ⟨hroom, hannounced, stage, hstage, hp⟩ := of_preamble hp
  have hfrom (creator : String) (hcreator : if positionAt payload 24 = 0 then creator = ""
      else TextAt payload (positionAt payload 24) creator) :
      Expands (definitionsFrom payload p sizes creator) fun d k =>
        k = d.recordCount ∧ (∀ b ∈ d.buffers, ∀ v ∈ b.vars, v.type.depth ≤ maxTypeDepth) ∧
          Recorded payload d := by
    refine (expands_definitionsFrom payload p sizes creator).imp fun d k hd => ?_
    obtain ⟨hcount, hdepth, hlength, hbuffers, hlength', hbindings, hd⟩ := hd
    -- the records have the sizes that the definitions give, since both are those of the preamble
    obtain rfl : sizes = d.recordSizes := recordSizes_eq hsizes (by rw [hd])
    rw [hp] at hd hlength hlength' hbuffers hbindings
    refine ⟨hcount, hdepth, hroom, ?_, ?_, ?_, ?_, ?_, ?_, hlength, hbuffers, hlength', hbindings⟩
    · rw [hd]
    · rw [hd]
    · rw [hd]; exact hstage
    · rw [hd]
    · rw [hd]; exact hcreator
    · rw [hd]; exact hannounced
  have hposition : p.creatorPosition = positionAt payload 24 := by rw [hp]
  rw [hposition]
  split
  · next hzero => exact hfrom "" (by rw [if_pos hzero])
  · next hne =>
    refine Expands.lift_bind fun creator hcreator => hfrom creator ?_
    rw [if_neg hne]
    exact stringAt_eq_ok_iff.1 hcreator

/-- What is decoded is what the records of the payload say. Its type records have been counted,
there are no more of them than there may be, and no type is nested too deep. -/
theorem of_decode {payload : Bytes} {d : ResourceDefinitions} (h : decode payload = .ok d) :
    Recorded payload d ∧ counted payload 0 = .ok (d, d.recordCount) ∧
      d.recordCount ≤ maxTypeRecords ∧
      ∀ b ∈ d.buffers, ∀ v ∈ b.vars, v.type.depth ≤ maxTypeDepth := by
  rw [decode_eq] at h
  obtain ⟨⟨_, n⟩, hcounted, rfl⟩ := map_eq_ok_iff.1 h
  obtain ⟨k, rfl, hle, rfl, hdepth, hrecorded⟩ :=
    expands_counted payload _ 0 n (Nat.zero_le _) hcounted
  rw [Nat.zero_add] at hle hcounted
  exact ⟨hrecorded, hcounted, hle, hdepth⟩

end ResourceDefinitions
end ShaderBytecode
