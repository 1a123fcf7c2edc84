import ShaderBytecode.Proofs.Bytes.InPlace

/-!
# Sessions stay within their buffer

What a request answers and where it leaves the position is told case by case by `Outcome`, without
a cursor. From it follows what every step keeps (`Keeps`), and from that what a session keeps:

    Session.step_outcome  : a step answers from the buffer, and the buffer stays as it is
    Session.step_keeps    : a step keeps within the buffer, moves by what it has read, and does not
                            move if it is refused, but for a string that is no text
    Session.session_keeps : so does every step of every session

`Outcome` is the whole specification of a request in one place: which answers there are, under which
condition each of them is given, and where the position is then. It does not say in which order a
reader checks things, so that two readers can be held against it. The five parts of `Keeps` are read
off it by looking at each of its cases.
-/

namespace ShaderBytecode

/-! ### What a request may answer

The cases have no overlap: a request with a width either has room or has not, a count of words may
be too large for a byte count, and a string ends at the first zero byte or nowhere. -/

/-- What reading a string at a position answers, and where the reading ends. -/
inductive StringRead (data : Bytes) (position : Nat) : Except ReadError String → Nat → Prop
  | text {text : String} (h : TextAt data position text) :
    StringRead data position (.ok text) (position + (Utf8.encode text).size + 1)
  | notText {bytes : Bytes} {fault : Utf8.Fault} (h : EndedAt data position bytes)
    (hfault : Utf8.decode bytes = .error fault) :
    StringRead data position (.error (.text fault)) (position + bytes.size + 1)
  | unterminated (h : ∀ i, position ≤ i → data[i]? ≠ some 0) :
    StringRead data position (.error (.unterminated position)) position

/-- What a request at a position answers, and the position after it. -/
inductive Outcome (data : Bytes) (position : Nat) :
    Request → Except ReadError Reply → Nat → Prop
  | read {r : Request} {count : Nat} {reply : Reply} (h : r.width? = some count)
    (hroom : position + count ≤ data.size)
    (hreply : r.Spells reply (data.extract position (position + count))) :
    Outcome data position r (.ok reply) (position + count)
  | short {r : Request} {count : Nat} (h : r.width? = some count)
    (hshort : data.size < position + count) :
    Outcome data position r (.error (.endOfData count (data.size - position))) position
  | wide {count : Nat} (h : Cursor.maxByteCount < 4 * count) :
    Outcome data position (.words count)
      (.error (.endOfData Cursor.maxByteCount (data.size - position))) position
  | peek {count : Nat} (hroom : position + count ≤ data.size) :
    Outcome data position (.peek count)
      (.ok (.bytes (data.extract position (position + count)))) position
  | peekShort {count : Nat} (hshort : data.size < position + count) :
    Outcome data position (.peek count)
      (.error (.endOfData count (data.size - position))) position
  | rest : Outcome data position .rest (.ok (.bytes (data.extract position data.size))) position
  | string {answer : Except ReadError String} {position' : Nat}
    (h : StringRead data position answer position') :
    Outcome data position .string (answer.map .text) position'
  | stringAt {start position' : Nat} {answer : Except ReadError String} (hstart : start ≤ data.size)
    (h : StringRead data start answer position') :
    Outcome data position (.stringAt start) (answer.map .text) position
  | stringOutside {start : Nat} (hstart : data.size < start) :
    Outcome data position (.stringAt start) (.error (.outOfBounds start data.size)) position
  | seek {target : Nat} (h : target ≤ data.size) :
    Outcome data position (.seek target) (.ok .moved) target
  | seekOutside {target : Nat} (h : data.size < target) :
    Outcome data position (.seek target) (.error (.outOfBounds target data.size)) position

/-- What stands in front of the terminator has no zero in it. -/
theorem endedAt_of_terminated {c c' : Cursor} {bytes : Bytes}
    (h : Cursor.terminated c = .ok (bytes, c')) :
    EndedAt c.data c.position bytes ∧ c'.position = c.position + bytes.size + 1 := by
  obtain ⟨-, hposition, hbytes, hends, hzero⟩ := Cursor.terminated_eq_ok_iff.1 h
  exact ⟨⟨hbytes, hends, hzero⟩, hposition⟩

/-- If no zero is found, there is none from the cursor on. -/
theorem ne_zero_of_findIdx?_rest_eq_none {c : Cursor} (h : c.rest.findIdx? (· == 0) = none)
    {i : Nat} (hi : c.position ≤ i) : c.data[i]? ≠ some 0 := by
  intro hzero
  have hrest : c.rest[i - c.position]? = some 0 := by
    rwa [Cursor.getElem?_rest, Nat.add_sub_cancel' hi]
  have hmem := Array.mem_of_getElem? hrest
  simpa using Array.findIdx?_eq_none_iff.1 h 0 hmem

/-- A string is read as `StringRead` says. -/
theorem stringRead_string (c : Cursor) :
    StringRead c.data c.position (InPlace.string c.data c.position).1
      (InPlace.string c.data c.position).2 := by
  rw [InPlace.string_eq]
  rcases terminated_cases c with ⟨hnone, hterminated⟩ | ⟨length, c', -, hterminated, -⟩
  · rw [hterminated]
    exact .unterminated fun i hi => ne_zero_of_findIdx?_rest_eq_none hnone hi
  · -- the bytes end with a zero, and it depends on them whether they are a text
    obtain ⟨hended, hposition⟩ := endedAt_of_terminated hterminated
    rw [hterminated]
    cases hdecode : Utf8.decode (c.data.extract c.position (c.position + length)) with
    | ok text =>
      obtain htext := Utf8.decode_eq_ok_iff.1 hdecode
      rw [htext] at hended hposition
      simp only [hdecode, hposition]
      exact .text (endedAt_encode_iff.1 hended)
    | error fault =>
      simp only [hdecode, hposition]
      exact .notText hended hdecode

namespace Session

/-- A step answers from the buffer that it is given, which stays as it is. -/
theorem step_outcome (c : Cursor) (r : Request) :
    (step c r).2.data = c.data ∧
      Outcome c.data c.position r (step c r).1 (step c r).2.position := by
  -- all requests with a width are answered by the same lemma
  have hread {count : Nat} (h : r.width? = some count) :
      (step c r).2.data = c.data ∧
        Outcome c.data c.position r (step c r).1 (step c r).2.position := by
    obtain ⟨answer, hreads⟩ := Request.exists_readsAs h
    by_cases hroom : c.position + count ≤ c.data.size
    · rw [hreads.step_of_le hroom]
      exact ⟨rfl, .read h hroom (hreads.spells _ (by rw [Array.size_extract]; omega))⟩
    · rw [hreads.step_of_lt (Nat.not_le.1 hroom)]
      exact ⟨rfl, .short h (Nat.not_le.1 hroom)⟩
  cases r with
  | u8 | u16 | u32 | float | tag | bytes | header => exact hread rfl
  | words count =>
    by_cases hcount : 4 * count ≤ Cursor.maxByteCount
    · exact hread (if_pos hcount)
    · rw [step_words_of_lt c (Nat.not_le.1 hcount)]
      exact ⟨rfl, .wide (Nat.not_le.1 hcount)⟩
  | peek count =>
    refine ⟨rfl, ?_⟩
    simp only [step, inspect, Cursor.peek]
    by_cases hroom : c.position + count ≤ c.data.size
    · rw [Cursor.take_eq_ok hroom]
      exact .peek hroom
    · rw [Cursor.take_eq_error (Nat.not_le.1 hroom)]
      exact .peekShort (Nat.not_le.1 hroom)
  | rest => exact ⟨rfl, .rest⟩
  | string =>
    have hstring := stringRead_string c
    rw [InPlace.string_eq] at hstring
    rw [step, string_eq]
    cases hterminated : Cursor.terminated c with
    | error e =>
      rw [hterminated] at hstring
      exact ⟨rfl, .string hstring⟩
    | ok p =>
      rw [hterminated] at hstring
      exact ⟨(Cursor.terminated_eq_ok_iff.1 hterminated).1, .string hstring⟩
  | stringAt start =>
    refine ⟨rfl, ?_⟩
    -- a string elsewhere is looked for by a reader of its own, which is then forgotten
    have hanswer : c.stringAt start = (InPlace.stringAt c.data start c.position).1 := by
      rw [InPlace.stringAt_eq]
    simp only [step, inspect, hanswer, InPlace.stringAt]
    by_cases hstart : start ≤ c.data.size
    · rw [InPlace.bind_of_ok (InPlace.seek_of_le hstart c.position)]
      exact .stringAt hstart (stringRead_string ⟨c.data, start, hstart⟩)
    · rw [InPlace.bind_of_error (InPlace.seek_of_lt (Nat.not_le.1 hstart) c.position)]
      exact .stringOutside (Nat.not_le.1 hstart)
  | seek target =>
    simp only [step, attempt, Cursor.seek]
    by_cases htarget : target ≤ c.data.size
    · rw [dif_pos htarget]
      exact ⟨rfl, .seek htarget⟩
    · rw [dif_neg htarget]
      exact ⟨rfl, .seekOutside (Nat.not_le.1 htarget)⟩

end Session

namespace Outcome

variable {data : Bytes} {position position' : Nat} {r : Request}

/-- When an answer is a fault, only a string that is no text has moved. -/
theorem position_of_error {e : ReadError} (h : Outcome data position r (.error e) position') :
    position' = position ∨
      r = .string ∧ ∃ bytes, EndedAt data position bytes ∧ (∀ text, bytes ≠ Utf8.encode text) ∧
        position' = position + bytes.size + 1 := by
  -- the answer has to be a variable for the cases to be split
  generalize hanswer : (Except.error e : Except ReadError Reply) = answer at h
  cases h with
  | short | wide | peekShort | stringAt | stringOutside | seekOutside => exact .inl rfl
  | read | peek | rest | seek => cases hanswer
  | string h =>
    cases h with
    | text => cases hanswer
    | unterminated => exact .inl rfl
    | @notText bytes fault hended hfault =>
      refine .inr ⟨rfl, bytes, hended, fun text htext => ?_, rfl⟩
      cases hfault.symm.trans (Utf8.decode_eq_ok_iff.2 htext)

/-- Looking does not move. -/
theorem position_of_looks {answer : Except ReadError Reply}
    (h : Outcome data position r answer position') (hlooks : r.looks) : position' = position := by
  cases h with
  | short | wide | peek | peekShort | rest | stringAt | stringOutside | seekOutside => rfl
  | string | seek => cases hlooks
  | read hwidth => rw [Request.looks_eq_false hwidth] at hlooks; cases hlooks

/-- What has been read is what stood there, and the position has moved over it. -/
theorem of_read {count : Nat} {reply : Reply} (h : Outcome data position r (.ok reply) position')
    (hwidth : r.width? = some count) :
    position + count ≤ data.size ∧ position' = position + count ∧
      r.Spells reply (data.extract position (position + count)) := by
  generalize hanswer : (Except.ok reply : Except ReadError Reply) = answer at h
  cases h with
  | read h hroom hreply =>
    cases hanswer
    cases hwidth.symm.trans h
    exact ⟨hroom, rfl, hreply⟩
  | short | wide => cases hanswer
  | peek | peekShort | rest | string | stringAt | stringOutside | seek | seekOutside =>
    cases hwidth

/-- A request with a width that has room is never refused. -/
theorem of_room {count : Nat} {answer : Except ReadError Reply}
    (h : Outcome data position r answer position') (hwidth : r.width? = some count)
    (hroom : position + count ≤ data.size) : ∃ reply, answer = .ok reply := by
  cases h with
  | read => exact ⟨_, rfl⟩
  | short h hshort =>
    cases hwidth.symm.trans h
    omega
  | wide h =>
    cases (if_neg (Nat.not_le.2 h)).symm.trans hwidth
  | peek | peekShort | rest | string | stringAt | stringOutside | seek | seekOutside =>
    cases hwidth

end Outcome

/-- What a request keeps: where the cursor may be after it, and what has been read then. -/
structure Keeps (c : Cursor) (r : Request) (answer : Except ReadError Reply) (c' : Cursor) :
    Prop where
  data_eq : c'.data = c.data
  outcome : Outcome c.data c.position r answer c'.position
  position_le : c'.position ≤ c.data.size
  position_add_remaining : c'.position + c'.remaining = c.data.size
  /-- Only a string that is no text has moved the position when it is refused. -/
  of_error : ∀ e, answer = .error e → c'.position = c.position ∨
    r = .string ∧ ∃ bytes, EndedAt c.data c.position bytes ∧ (∀ text, bytes ≠ Utf8.encode text) ∧
      c'.position = c.position + bytes.size + 1
  of_looks : r.looks → c'.position = c.position
  of_read : ∀ count reply, r.width? = some count → answer = .ok reply →
    c.position + count ≤ c.data.size ∧ c'.position = c.position + count ∧
      r.Spells reply (c.data.extract c.position (c.position + count))
  of_room : ∀ count, r.width? = some count → c.position + count ≤ c.data.size →
    ∃ reply, answer = .ok reply

/-- Every step keeps within the buffer. -/
theorem Session.step_keeps (c : Cursor) (r : Request) : Keeps c r (step c r).1 (step c r).2 := by
  obtain ⟨hdata, houtcome⟩ := step_outcome c r
  generalize step c r = s at hdata houtcome
  obtain ⟨answer, c'⟩ := s
  dsimp only at hdata houtcome ⊢
  exact ⟨hdata, houtcome, hdata ▸ c'.position_le, hdata ▸ c'.position_add_remaining,
    fun e he => (he ▸ houtcome).position_of_error, houtcome.position_of_looks,
    fun count reply hwidth hreply => (hreply ▸ houtcome).of_read hwidth,
    fun count hwidth hroom => houtcome.of_room hwidth hroom⟩

/-- The entries of a session, each of them kept by its request. -/
inductive Log : Cursor → List Request → List (Except ReadError Reply × Cursor) → Prop
  | nil (c : Cursor) : Log c [] []
  | cons {c c' : Cursor} {r : Request} {rs : List Request} {answer : Except ReadError Reply}
    {entries : List (Except ReadError Reply × Cursor)} (h : Keeps c r answer c')
    (hrest : Log c' rs entries) : Log c (r :: rs) ((answer, c') :: entries)

/-- The log of a session, from the step lemma by induction on the requests. -/
theorem Session.run_log (c : Cursor) (requests : List Request) :
    Log c requests (run c requests) := by
  induction requests generalizing c with
  | nil => exact .nil c
  | cons r rs ih => exact .cons (step_keeps c r) (ih _)

/-- So a whole run that is read in place answers like a session, and is where the session is. -/
theorem InPlace.run_eq (c : Cursor) (requests : List Request) :
    run c.data c.position requests
      = (Session.run c requests).map fun entry => (entry.1, entry.2.position) := by
  induction requests generalizing c with
  | nil => rfl
  | cons r rs ih =>
    simp only [run, Session.run, List.map_cons, step_eq]
    rw [← ih, (Session.step_outcome c r).1]

/-- Every session, from wherever it begins and whatever it asks for, keeps within its buffer at each
step, and a reader that moves one position as it reads goes through the same positions. -/
theorem Session.session_keeps (c : Cursor) (requests : List Request) :
    Log c requests (run c requests) ∧
      InPlace.run c.data c.position requests
        = (run c requests).map fun entry => (entry.1, entry.2.position) :=
  ⟨run_log c requests, InPlace.run_eq c requests⟩

end ShaderBytecode
