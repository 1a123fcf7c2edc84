import ShaderBytecode.Error
import ShaderBytecode.Proofs.Bytes.Reading
import ShaderBytecode.Proofs.Bytes.Writing

/-!
# Records and texts at positions

Payloads are webs of records that point at each other by position. What decoding finds at a
position is told here by the bytes that stand there, without a cursor:

    fieldsAt_eq_ok_iff : fieldsAt payload p fields = .ok a ↔
      p + width ≤ payload.size ∧ value payload p = .ok a
    stringAt_eq_ok_iff : stringAt payload p = .ok text ↔ TextAt payload p text
    repeated_eq_ok_iff : repeated item start count = .ok l ↔ l.length = count ∧ ∀ index a, …

A record has a width and a value for each place of a buffer (`ReadsRecord`); the record that follows
another one stands behind it. A text stands with its UTF-8 bytes, and a zero byte ends it, so that a
text without zeros stands where it was written (`TextAt.of_pieceAt`).

All three laws are equivalences. Decoding is followed from outside by going through them from left
to right, once for each field, and a payload that was written is decoded by going from right to
left. A fault is never looked at more closely than that there is one, since what has been refused
has no result to speak about.
-/

namespace ShaderBytecode

/-! ### Results

How a result with faults is taken apart: what was bound to it succeeded, what it was mapped from is
there, and a fault with another wording is still a fault. -/

/-- What is done with a result succeeds if there is one and the rest succeeds. -/
theorem bind_eq_ok_iff {x : Except ε α} {f : α → Except ε β} {b : β} :
    (x >>= f) = .ok b ↔ ∃ a, x = .ok a ∧ f a = .ok b := by
  cases x <;> simp [bind, Except.bind]

/-- What is made of a result is made of one that is there. -/
theorem map_eq_ok_iff {x : Except ε α} {f : α → β} {b : β} :
    x.map f = .ok b ↔ ∃ a, x = .ok a ∧ f a = b := by
  cases x <;> simp [Except.map]

/-- Another wording for the fault changes nothing for a result. -/
theorem mapError_eq_ok_iff {x : Except ε α} {f : ε → ε'} {a : α} :
    x.mapError f = .ok a ↔ x = .ok a := by
  cases x with
  | error e => constructor <;> (intro h; cases h)
  | ok b => constructor <;> (intro h; cases h; rfl)

/-! ### Positions

A cursor that is set to a position has to stand within its buffer. -/

theorem Cursor.seek_eq_ok_iff {c c' : Cursor} {position : Nat} :
    c.seek position = .ok c' ↔ ∃ h : position ≤ c.data.size, c' = ⟨c.data, position, h⟩ := by
  unfold seek
  split
  · next h => simp [h, eq_comm]
  · next h => simp [h]

/-! ### Records

A record is a fixed number of bytes with a value for each place where it may stand. Putting records
one behind the other adds their widths (`ReadsRecord.bind`), so that the width of a record is found
by the way it is decoded, and is not counted by hand. -/

/-- The byte that stands at `offset`. -/
def Bytes.byteAt (bytes : Bytes) (offset : Nat) : UInt8 :=
  UInt8.ofNat (number (bytes.extract offset (offset + 1)).toList)

/-- A byte is read where it stands. -/
theorem Bytes.PieceAt.byteAt_eq {data : Bytes} {position : Nat} {b : UInt8}
    (h : data.PieceAt position #[b]) : data.byteAt position = b := by
  have hpiece : data.extract position (position + 1) = #[b] := h.extract_eq
  rw [Bytes.byteAt, hpiece]
  simp [Bytes.number]

namespace Decode

/-- Fields that take `width` bytes wherever they stand, and what they then are. Fields that are cut
off by the end of the buffer cannot be decoded. -/
structure ReadsRecord (fields : Decode α) (width : Nat)
    (value : Bytes → Nat → Except DecodeError α) : Prop where
  eq_of_le : ∀ (c : Cursor) (h : c.position + width ≤ c.data.size),
    fields c = (value c.data c.position).map (·, ⟨c.data, c.position + width, h⟩)
  of_lt : ∀ c : Cursor, c.data.size < c.position + width → ∃ e, fields c = .error e

/-- What does not look at the cursor takes no room. -/
theorem readsRecord_lift (x : Except DecodeError α) :
    ReadsRecord (liftM x : Decode α) 0 fun _ _ => x where
  eq_of_le c h := by cases x <;> rfl
  of_lt c h := absurd c.position_le (Nat.not_le.2 h)

theorem readsRecord_pure (a : α) : ReadsRecord (pure a : Decode α) 0 fun _ _ => .ok a :=
  readsRecord_lift (.ok a)

/-- The next bytes, read as something. -/
theorem readsRecord_take (width : Nat) (f : Bytes → α) :
    ReadsRecord (liftM (Cursor.take width >>= fun bytes => pure (f bytes) : Read α)) width
      fun data p => .ok (f (data.extract p (p + width))) where
  eq_of_le c h := by
    simp only [liftM, monadLift, MonadLift.monadLift, Bind.bind, StateT.bind,
      Cursor.take_eq_ok h]
    rfl
  of_lt c h := by
    simp only [liftM, monadLift, MonadLift.monadLift, Bind.bind, StateT.bind,
      Cursor.take_eq_error h]
    exact ⟨_, rfl⟩

theorem readsRecord_bytes (width : Nat) :
    ReadsRecord (liftM (Cursor.take width) : Decode Bytes) width
      fun data p => .ok (data.extract p (p + width)) := by
  simpa using readsRecord_take width id

/-- One byte. -/
theorem readsRecord_u8 : ReadsRecord (liftM Cursor.u8 : Decode UInt8) 1
    fun data p => .ok (data.byteAt p) :=
  readsRecord_take 1 _

/-- Two bytes, the low one first. -/
theorem readsRecord_u16 : ReadsRecord (liftM Cursor.u16 : Decode UInt16) 2
    fun data p => .ok (data.halfAt p) :=
  readsRecord_take 2 _

/-- Four bytes, the low one first. -/
theorem readsRecord_u32 : ReadsRecord (liftM Cursor.u32 : Decode UInt32) 4
    fun data p => .ok (data.wordAt p) :=
  readsRecord_take 4 _

/-- A record that follows another one stands behind it. -/
theorem ReadsRecord.bind {fields : Decode α} {more : α → Decode β} {m n : Nat}
    {value : Bytes → Nat → Except DecodeError α} {value' : α → Bytes → Nat → Except DecodeError β}
    (h : ReadsRecord fields m value) (h' : ∀ a, ReadsRecord (more a) n (value' a)) :
    ReadsRecord (fields >>= more) (m + n)
      fun data p => value data p >>= fun a => value' a data (p + m) where
  eq_of_le c hc := by
    have hm := h.eq_of_le c (by omega)
    simp only [Bind.bind, StateT.bind, hm]
    cases value c.data c.position with
    | error e => rfl
    | ok a =>
      have hn := (h' a).eq_of_le ⟨c.data, c.position + m, by omega⟩
        (by rw [Nat.add_assoc]; exact hc)
      -- the second record begins where the first one has ended, and both widths are taken
      simp only [Except.map, Except.bind, hn, Nat.add_assoc]
  of_lt c hc := by
    simp only [Bind.bind, StateT.bind]
    -- what is missing may be missing already in the first record
    by_cases hroom : c.position + m ≤ c.data.size
    · rw [h.eq_of_le c hroom]
      cases value c.data c.position with
      | error e => exact ⟨e, rfl⟩
      | ok a => exact (h' a).of_lt ⟨c.data, c.position + m, hroom⟩ (by dsimp only; omega)
    · obtain ⟨e, he⟩ := h.of_lt c (Nat.not_le.1 hroom)
      exact ⟨e, by rw [he]; rfl⟩

/-- What is made of the fields takes the room of the fields. -/
theorem ReadsRecord.map {fields : Decode α} {width : Nat}
    {value : Bytes → Nat → Except DecodeError α} (h : ReadsRecord fields width value) (f : α → β) :
    ReadsRecord (f <$> fields) width fun data p => (value data p).map f :=
  h.bind fun a => readsRecord_pure (f a)

/-- What comes after fields begins behind them. -/
theorem ReadsRecord.bind_eq_ok_iff {fields : Decode α} {width : Nat}
    {value : Bytes → Nat → Except DecodeError α} (h : ReadsRecord fields width value)
    {more : α → Decode β} {c : Cursor} {r : β × Cursor} :
    (fields >>= more) c = .ok r ↔
      ∃ (hroom : c.position + width ≤ c.data.size) (a : α), value c.data c.position = .ok a ∧
        more a ⟨c.data, c.position + width, hroom⟩ = .ok r := by
  constructor
  · intro hok
    obtain ⟨⟨a, c'⟩, hfields, hmore⟩ := ShaderBytecode.bind_eq_ok_iff.1 hok
    by_cases hroom : c.position + width ≤ c.data.size
    · rw [h.eq_of_le c hroom] at hfields
      obtain ⟨a', ha, hpair⟩ := map_eq_ok_iff.1 hfields
      cases hpair
      exact ⟨hroom, a, ha, hmore⟩
    · -- without room the fields have no value, so they cannot have succeeded
      obtain ⟨e, he⟩ := h.of_lt c (Nat.not_le.1 hroom)
      cases he.symm.trans hfields
  · rintro ⟨hroom, a, ha, hmore⟩
    refine ShaderBytecode.bind_eq_ok_iff.2 ⟨(a, ⟨c.data, c.position + width, hroom⟩), ?_, hmore⟩
    rw [h.eq_of_le c hroom, ha]
    rfl

/-- Fields are decoded from a position of the payload. -/
theorem fieldsAt_eq_ok {fields : Decode α} {payload : Bytes} {position : Nat} {a : α} :
    fieldsAt payload position fields = .ok a ↔
      ∃ (h : position ≤ payload.size) (c : Cursor), fields ⟨payload, position, h⟩ = .ok (a, c) := by
  simp only [fieldsAt, ShaderBytecode.bind_eq_ok_iff, mapError_eq_ok_iff, Cursor.seek_eq_ok_iff]
  constructor
  · rintro ⟨_, ⟨hposition, rfl⟩, ⟨a', c⟩, hfields, ha⟩
    cases ha
    exact ⟨hposition, c, hfields⟩
  · rintro ⟨hposition, c, hfields⟩
    exact ⟨_, ⟨hposition, rfl⟩, (a, c), hfields, rfl⟩

/-- The fields at a position can be decoded if there is room for them, and are what stands
there. -/
theorem fieldsAt_eq_ok_iff {fields : Decode α} {width : Nat}
    {value : Bytes → Nat → Except DecodeError α} (h : ReadsRecord fields width value)
    {payload : Bytes} {position : Nat} {a : α} :
    fieldsAt payload position fields = .ok a ↔
      position + width ≤ payload.size ∧ value payload position = .ok a := by
  rw [fieldsAt_eq_ok, ← bind_pure fields]
  constructor
  · rintro ⟨hposition, c, hfields⟩
    obtain ⟨hroom, a', ha, hpair⟩ := h.bind_eq_ok_iff.1 hfields
    cases hpair
    exact ⟨hroom, ha⟩
  · rintro ⟨hroom, ha⟩
    have hposition : position ≤ payload.size := Nat.le_of_add_right_le hroom
    exact ⟨hposition, ⟨payload, position + width, hroom⟩, h.bind_eq_ok_iff.2 ⟨hroom, a, ha, rfl⟩⟩

/-- Items that are decoded one after the other are what each of them is on its own. -/
theorem repeated_eq_ok_iff {item : Nat → Except ε α} {start count : Nat} {l : List α} :
    repeated item start count = .ok l ↔
      l.length = count ∧ ∀ index a, l[index]? = some a → item (start + index) = .ok a := by
  induction count generalizing start l with
  | zero =>
    constructor
    · intro h
      cases h
      exact ⟨rfl, by simp⟩
    · rintro ⟨hlength, -⟩
      rw [List.eq_nil_of_length_eq_zero hlength]
      rfl
  | succ count ih =>
    simp only [repeated, ShaderBytecode.bind_eq_ok_iff, ih]
    constructor
    · -- the first item stands at `start`, and the others are those of a run that starts one later
      rintro ⟨a, ha, rest, ⟨hlength, hrest⟩, h⟩
      cases h
      refine ⟨congrArg (· + 1) hlength, fun index b hb => ?_⟩
      cases index with
      | zero => cases hb; exact ha
      | succ index =>
        rw [← Nat.succ_add_eq_add_succ]
        exact hrest index b hb
    · rintro ⟨hlength, hl⟩
      obtain ⟨a, rest, rfl⟩ := List.exists_cons_of_length_eq_add_one hlength
      refine ⟨a, hl 0 a rfl, rest, ⟨Nat.succ.inj hlength, fun index b hb => ?_⟩, rfl⟩
      rw [Nat.succ_add_eq_add_succ]
      exact hl (index + 1) b hb

end Decode

/-! ### Texts

A string is found by looking for the zero byte behind it. Only then are its bytes read as UTF-8, so
a string is told by its bytes, by the zero byte, and by the bytes having no zero among them. -/

/-- Bytes are a text exactly if they are the bytes that the text is written with. -/
theorem Utf8.decode_eq_ok_iff {bytes : Bytes} {text : String} :
    Utf8.decode bytes = .ok text ↔ bytes = Utf8.encode text := by
  unfold Utf8.decode String.fromUTF8?
  constructor
  · intro h
    split at h
    · next text' htext =>
      split at htext
      · cases h
        cases htext
        rfl
      · cases htext
    · cases h
  · rintro rfl
    -- the bytes of a text are valid by construction
    have hvalid : (⟨Utf8.encode text⟩ : ByteArray).IsValidUTF8 := text.isValidUTF8
    rw [dif_pos hvalid]
    rfl

/-- A text that stands at a position: its bytes, and a zero byte behind them that is none of
them. -/
structure TextAt (payload : Bytes) (position : Nat) (text : String) : Prop where
  bytes_eq : payload.extract position (position + (Utf8.encode text).size) = Utf8.encode text
  ends : payload[position + (Utf8.encode text).size]? = some 0
  ne_zero : ∀ b ∈ Utf8.encode text, b ≠ 0

namespace Cursor

/-- What is left of a buffer begins at the cursor. -/
theorem getElem?_rest (c : Cursor) (i : Nat) : c.rest[i]? = c.data[c.position + i]? := by
  rw [rest, Array.getElem?_extract]
  split
  · rfl
  · rw [Array.getElem?_eq_none (by omega)]

/-- The next zero byte is found if the bytes in front of it are not zero. -/
theorem findIdx?_rest_eq_some_iff {c : Cursor} {length : Nat} :
    c.rest.findIdx? (· == 0) = some length ↔
      c.data[c.position + length]? = some 0 ∧
        ∀ b ∈ c.data.extract c.position (c.position + length), b ≠ 0 := by
  rw [Array.findIdx?_eq_some_iff_getElem, ← getElem?_rest]
  constructor
  · rintro ⟨hlength, hzero, hbefore⟩
    refine ⟨by rw [Array.getElem?_eq_getElem hlength]; simpa using hzero, fun b hb => ?_⟩
    -- a byte of the piece is one of those in front of the zero byte
    obtain ⟨j, hj⟩ := Array.mem_iff_getElem?.1 hb
    have hpiece := (Array.getElem?_eq_some_iff.1 hj).1
    rw [Array.size_extract] at hpiece
    have hjlt : j < length := by omega
    rw [Array.getElem?_extract, if_pos hpiece, ← getElem?_rest,
      Array.getElem?_eq_getElem (Nat.lt_trans hjlt hlength)] at hj
    cases hj
    simpa using hbefore j hjlt
  · rintro ⟨hzero, hbefore⟩
    obtain ⟨hlength, hzero⟩ := Array.getElem?_eq_some_iff.1 hzero
    refine ⟨hlength, by simpa using hzero, fun j hj => ?_⟩
    have hmem : c.rest[j] ∈ c.data.extract c.position (c.position + length) := by
      refine Array.mem_iff_getElem?.2 ⟨j, ?_⟩
      have hsize : c.rest.size = c.data.size - c.position := by simp [rest]
      rw [Array.getElem?_extract, if_pos (by omega), ← getElem?_rest,
        Array.getElem?_eq_getElem (Nat.lt_trans hj hlength)]
    simpa using hbefore _ hmem

/-- The bytes up to the next zero byte, if there is one. -/
theorem terminated_eq_ok_iff {c c' : Cursor} {bytes : Bytes} :
    terminated c = .ok (bytes, c') ↔
      c'.data = c.data ∧ c'.position = c.position + bytes.size + 1 ∧
      c.data.extract c.position (c.position + bytes.size) = bytes ∧
      c.data[c.position + bytes.size]? = some 0 ∧ ∀ b ∈ bytes, b ≠ 0 := by
  constructor
  · intro h
    unfold terminated at h
    split at h
    · cases h
    next length hfind =>
    cases h
    obtain ⟨hends, hzero⟩ := findIdx?_rest_eq_some_iff.1 hfind
    have hlt := (Array.getElem?_eq_some_iff.1 hends).1
    -- the slice ends at the zero byte, which is inside the data
    have hsize : (c.data.extract c.position (c.position + length)).size = length := by
      rw [Array.size_extract]
      omega
    rw [hsize]
    exact ⟨rfl, rfl, rfl, hends, hzero⟩
  · rintro ⟨hdata, hposition, hbytes, hends, hzero⟩
    -- nothing in front of the end is zero, so the search stops there
    have hfind : c.rest.findIdx? (· == 0) = some bytes.size :=
      findIdx?_rest_eq_some_iff.2 ⟨hends, by rwa [hbytes]⟩
    unfold terminated
    split
    · next hnone => cases hnone.symm.trans hfind
    next length hsome =>
    cases hsome.symm.trans hfind
    obtain ⟨data', position', hle⟩ := c'
    subst hdata hposition
    rw [hbytes]

/-- The bytes of a string are found first and are then read as text. -/
theorem string_eq (c : Cursor) :
    string c = terminated c >>= fun p => ((Utf8.decode p.1).mapError .text).map (·, p.2) := by
  simp only [string, bind, StateT.bind, Except.bind]
  cases terminated c with
  | error e => rfl
  | ok p =>
    dsimp only
    cases Utf8.decode p.1 <;> rfl

/-- A string is the text of the bytes up to the next zero byte. -/
theorem string_eq_ok_iff {c c' : Cursor} {text : String} :
    string c = .ok (text, c') ↔ terminated c = .ok (Utf8.encode text, c') := by
  rw [string_eq, bind_eq_ok_iff]
  constructor
  · rintro ⟨⟨bytes, c''⟩, hbytes, hp⟩
    obtain ⟨text', htext, hp⟩ := map_eq_ok_iff.1 hp
    cases hp
    obtain rfl := Utf8.decode_eq_ok_iff.1 (mapError_eq_ok_iff.1 htext)
    exact hbytes
  · intro h
    refine ⟨_, h, map_eq_ok_iff.2 ⟨text, ?_, rfl⟩⟩
    rw [mapError_eq_ok_iff, Utf8.decode_eq_ok_iff]

end Cursor

/-- A text is read at a position exactly if it stands there. -/
theorem Cursor.stringAt_eq_ok_iff {c : Cursor} {position : Nat} {text : String} :
    c.stringAt position = .ok text ↔ TextAt c.data position text := by
  simp only [stringAt, bind_eq_ok_iff, seek_eq_ok_iff, pure, Except.pure, Except.ok.injEq]
  constructor
  · rintro ⟨_, ⟨hposition, rfl⟩, ⟨text', c'⟩, hstring, rfl⟩
    obtain ⟨-, -, hbytes, hends, hzero⟩ := terminated_eq_ok_iff.1 (string_eq_ok_iff.1 hstring)
    exact ⟨hbytes, hends, hzero⟩
  · rintro ⟨hbytes, hends, hzero⟩
    have hlt := (Array.getElem?_eq_some_iff.1 hends).1
    have hposition : position ≤ c.data.size := by omega
    have hstring : string ⟨c.data, position, hposition⟩ = .ok (text,
        ⟨c.data, position + (Utf8.encode text).size + 1, hlt⟩) :=
      string_eq_ok_iff.2 (terminated_eq_ok_iff.2 ⟨rfl, rfl, hbytes, hends, hzero⟩)
    exact ⟨_, ⟨hposition, rfl⟩, _, hstring, rfl⟩

/-- With another wording for faults a text is read as before. -/
theorem Decode.stringAt_eq_ok_iff {payload : Bytes} {position : Nat} {text : String} :
    stringAt payload position = .ok text ↔ TextAt payload position text :=
  mapError_eq_ok_iff.trans Cursor.stringAt_eq_ok_iff

/-- At a position stands one text at most. -/
theorem TextAt.unique {payload : Bytes} {position : Nat} {text text' : String}
    (h : TextAt payload position text) (h' : TextAt payload position text') : text = text' :=
  Except.ok.inj
    ((Decode.stringAt_eq_ok_iff.2 h).symm.trans (Decode.stringAt_eq_ok_iff.2 h'))

/-! ### Texts that are written

A text that was written is found again if the first zero byte behind its start is the one that ends
it. UTF-8 writes a zero byte for the character zero and for no other. -/

/-- No character of a text is a zero. -/
def NulFree (text : String) : Prop := ∀ c ∈ text.toList, c.toNat ≠ 0

/-- Only the character zero is written with a zero byte. -/
theorem ne_zero_of_mem_utf8EncodeChar {c : Char} (hc : c.toNat ≠ 0) {b : UInt8}
    (hb : b ∈ String.utf8EncodeChar c) : b ≠ 0 := by
  rintro rfl
  have hne : c.val.toNat ≠ 0 := hc
  -- a lead byte of a longer sequence is at least 192, and each byte behind it at least 128
  have hbyte {n : Nat} (h : (0 : UInt8) = UInt8.ofNat n) : n % 256 = 0 := by
    rw [← UInt8.toNat_ofNat', ← h]
    rfl
  unfold String.utf8EncodeChar at hb
  dsimp only at hb
  split at hb
  · have h := hbyte (List.mem_singleton.1 hb)
    omega
  · split at hb
    · simp only [List.mem_cons, List.not_mem_nil, or_false] at hb
      rcases hb with h | h <;> have h := hbyte h <;> omega
    · split at hb
      · simp only [List.mem_cons, List.not_mem_nil, or_false] at hb
        rcases hb with h | h | h <;> have h := hbyte h <;> omega
      · simp only [List.mem_cons, List.not_mem_nil, or_false] at hb
        rcases hb with h | h | h | h <;> have h := hbyte h <;> omega

/-- The bytes of a text without zeros are not zero. -/
theorem NulFree.ne_zero {text : String} (h : NulFree text) {b : UInt8}
    (hb : b ∈ Utf8.encode text) : b ≠ 0 := by
  have htext : text.toUTF8 = text.toList.utf8Encode := by simp [String.toUTF8]
  rw [Utf8.encode, htext, List.utf8Encode, List.data_toByteArray, List.mem_toArray] at hb
  obtain ⟨c, hc, hb⟩ := List.mem_flatMap.1 hb
  exact ne_zero_of_mem_utf8EncodeChar (h c hc) hb

/-- A text that is written with a zero byte behind it stands where it was written. -/
theorem TextAt.of_pieceAt {payload : Bytes} {position : Nat} {text : String} (htext : NulFree text)
    (h : payload.PieceAt position (Utf8.encode text ++ #[0])) : TextAt payload position text := by
  obtain ⟨hbytes, hzero⟩ := Bytes.pieceAt_append_iff.1 h
  exact ⟨hbytes.extract_eq, hzero 0 (by decide), fun b hb => htext.ne_zero hb⟩

end ShaderBytecode
