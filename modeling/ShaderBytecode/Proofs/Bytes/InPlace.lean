import ShaderBytecode.Bytes.Session
import ShaderBytecode.Proofs.Bytes.Records

/-!
# Reading in place

A session keeps a cursor, and a refused request gives back the cursor that it found. A reader can
also keep one number, move it as it goes and leave it wherever it is when a request fails. Such a
reader is set beside the session here. That the two agree says that no request moves the position
before it knows that it will succeed, but for a string, which is checked behind its terminator:

    InPlace.step_eq : InPlace.step c.data r c.position =
      ((Session.step c r).1, (Session.step c r).2.position)

What a read answers is told by the bytes that it was read from: `Spells r reply bytes` says that
`reply` is written with `bytes`. Every request for a certain number of bytes takes these bytes and
then makes its answer of them (`Request.ReadsAs`).

The session is written with `attempt`, which runs a read and forgets the cursor of one that fails.
Whether forgetting was necessary cannot be seen from the session. A reader that has nothing to go
back to shows it: most reads look first and move then, and only the string moves in between.
-/

namespace ShaderBytecode

open Bytes (ofHalf ofWord)

/-! ### What requests ask for

Thirteen requests are of two sorts. Those with a width take that many bytes, and make an answer of
them that they are written with (`Spells`); one lemma is enough for all of these. The others look,
go somewhere, or search for the end of a string. -/

namespace Request

/-- The number of bytes that a request reads, if it is for a certain number of them. -/
def width? : Request → Option Nat
  | u8 => some 1
  | u16 => some 2
  | u32 | float | tag => some 4
  | bytes count => some count
  | words count => if 4 * count ≤ Cursor.maxByteCount then some (4 * count) else none
  | header => some Header.byteCount
  | peek _ | rest | string | stringAt _ | seek _ => none

/-- The request only looks at the buffer. -/
def looks : Request → Bool
  | peek _ | rest | stringAt _ => true
  | _ => false

/-- A request for a certain number of bytes moves. -/
theorem looks_eq_false {r : Request} {count : Nat} (h : r.width? = some count) :
    r.looks = false := by
  cases r with
  | peek | rest | stringAt => cases h
  | u8 | u16 | u32 | float | tag | bytes | words | string | seek | header => rfl

/-- The answer to a request is written with some bytes. -/
inductive Spells : Request → Reply → Bytes → Prop
  | u8 (b : UInt8) : Spells u8 (.number b.toNat) #[b]
  | u16 (w : UInt16) : Spells u16 (.number w.toNat) (ofHalf w)
  | u32 (w : UInt32) : Spells u32 (.number w.toNat) (ofWord w)
  | float (w : UInt32) : Spells float (.float w) (ofWord w)
  | tag (t : Tag) : Spells tag (.tag t) t.toArray
  | bytes (b : Bytes) : Spells (bytes b.size) (.bytes b) b
  | words (ws : List UInt32) :
    Spells (words ws.length) (.words ws) ((ws.map ofWord).foldl (· ++ ·) #[])
  | header (h : Header) : Spells header (.header h) h.toBytes

end Request

/-! ### Reading in place

The state is the position. Unlike the cursor of a session it may be any number, so what remains is a
difference that stops at zero. -/

/-- Reading that moves a position. What it has moved stays moved when it fails. -/
abbrev Move := ExceptT ReadError (StateM Nat)

namespace InPlace

variable (data : Bytes)

/-- The number of bytes from a position to the end. -/
def remaining (position : Nat) : Nat := data.size - position

/-- The next bytes, without moving. -/
def peek (count : Nat) : Move Bytes := do
  let position ← get
  if remaining data position < count then throw (.endOfData count (remaining data position))
  return data.extract position (position + count)

/-- The next bytes. -/
def take (count : Nat) : Move Bytes := do
  let bytes ← peek data count
  modify (· + count)
  return bytes

/-- The next words. -/
def words (count : Nat) : Move (List UInt32) := do
  if Cursor.maxByteCount < 4 * count then
    throw (.endOfData Cursor.maxByteCount (remaining data (← get)))
  return Bytes.words (← take data (4 * count))

/-- A string, which is passed over before it is known to be one. -/
def string : Move String := do
  let start ← get
  match (data.extract start data.size).findIdx? (· == 0) with
  | none => throw (.unterminated start)
  | some length =>
    set (start + length + 1)
    match Utf8.decode (data.extract start (start + length)) with
    | .ok text => return text
    | .error fault => throw (.text fault)

/-- Another position. -/
def seek (position : Nat) : Move Unit := do
  if data.size < position then throw (.outOfBounds position data.size)
  set position

/-- The string at another position, with a position of its own. -/
def stringAt (position : Nat) : Move String := fun start =>
  (((do seek data position; string data : Move String) start).1, start)

/-- The answer to a request. -/
def step : Request → Move Reply
  | .u8 => return .number (UInt8.ofNat (Bytes.number (← take data 1).toList)).toNat
  | .u16 => return .number (UInt16.ofNat (Bytes.number (← take data 2).toList)).toNat
  | .u32 => return .number (UInt32.ofNat (Bytes.number (← take data 4).toList)).toNat
  | .float => return .float (UInt32.ofNat (Bytes.number (← take data 4).toList))
  | .tag => return .tag ((Tag.ofList? (← take data 4).toList).getD default)
  | .bytes count => return .bytes (← take data count)
  | .peek count => return .bytes (← peek data count)
  | .rest => return .bytes (data.extract (← get) data.size)
  | .words count => return .words (← words data count)
  | .string => return .text (← string data)
  | .stringAt position => return .text (← stringAt data position)
  | .seek position => do seek data position; return .moved
  | .header => return .header (Header.ofBytes (← take data Header.byteCount))

/-- The answers to a run of requests, each with the position after it. -/
def run (position : Nat) : List Request → List (Except ReadError Reply × Nat)
  | [] => []
  | r :: rs => step data r position :: run (step data r position).2 rs

section

/-! What comes after a step begins where that step has left the state, here the position. -/

variable {ε σ : Type}

/-- What comes after a step that succeeds starts from the state behind it. -/
theorem bind_of_ok {move : ExceptT ε (StateM σ) α} {next : α → ExceptT ε (StateM σ) β} {s s' : σ}
    {a : α} (h : move s = (.ok a, s')) : (move >>= next) s = next a s' := by
  simp only [Bind.bind, ExceptT.bind, ExceptT.mk, StateT.bind, h]
  rfl

/-- After a step that fails nothing comes, and the state is where that step has left it. -/
theorem bind_of_error {move : ExceptT ε (StateM σ) α} {next : α → ExceptT ε (StateM σ) β}
    {s s' : σ} {e : ε} (h : move s = (.error e, s')) : (move >>= next) s = (.error e, s') := by
  simp only [Bind.bind, ExceptT.bind, ExceptT.mk, StateT.bind, h]
  rfl

theorem bind_get (next : σ → ExceptT ε (StateM σ) α) (s : σ) :
    ((get : ExceptT ε (StateM σ) σ) >>= next) s = next s s := rfl

end

theorem bind_set (next : PUnit → Move α) (target position : Nat) :
    ((set target : Move PUnit) >>= next) position = next ⟨⟩ target := rfl

variable {data}

/-- There is room, and looking does not move. -/
theorem peek_of_le {count position : Nat} (h : position + count ≤ data.size) :
    peek data count position = (.ok (data.extract position (position + count)), position) := by
  have hroom : ¬ remaining data position < count := by unfold remaining; omega
  refine (bind_get _ position).trans ?_
  rw [if_neg hroom]
  rfl

/-- There is no room, and nothing has moved. -/
theorem peek_of_lt {count position : Nat} (hposition : position ≤ data.size)
    (h : data.size < position + count) :
    peek data count position = (.error (.endOfData count (remaining data position)), position) := by
  have hshort : remaining data position < count := by unfold remaining; omega
  refine (bind_get _ position).trans ?_
  rw [if_pos hshort]
  rfl

/-- The bytes are taken by moving over them. -/
theorem take_of_le {count position : Nat} (h : position + count ≤ data.size) :
    take data count position =
      (.ok (data.extract position (position + count)), position + count) :=
  bind_of_ok (peek_of_le h)

/-- Bytes that are not there are not taken, and nothing has moved. -/
theorem take_of_lt {count position : Nat} (hposition : position ≤ data.size)
    (h : data.size < position + count) :
    take data count position = (.error (.endOfData count (remaining data position)), position) :=
  bind_of_error (peek_of_lt hposition h)

end InPlace

/-! ### Reads of a certain number of bytes

Only the wrapper around the bytes differs from request to request. `exists_readsAs` finds the
wrapper for each of them and shows once that session and reader use the same one. -/

/-- A request is a read of some bytes, which are then taken as the answer. -/
structure Request.ReadsAs (r : Request) (count : Nat) (answer : Bytes → Reply) : Prop where
  session : ∀ c, Session.step c r = Session.attempt (do return answer (← Cursor.take count)) c
  inPlace : ∀ data, InPlace.step data r = do return answer (← InPlace.take data count)
  spells : ∀ b : Bytes, b.size = count → r.Spells (answer b) b

theorem Bytes.extract_zero_size {b : Bytes} {count : Nat} (h : b.size = count) :
    b.extract 0 count = b := by
  rw [← h, Array.extract_size]

/-- One byte is spelled by the number that was read from it. -/
theorem Bytes.ofByte_number {b : Bytes} (h : b.size = 1) :
    #[UInt8.ofNat (number b.toList)] = b := by
  obtain ⟨a, rfl⟩ := Array.size_eq_one_iff.1 h
  simp [number]

/-- So are two bytes. -/
theorem Bytes.ofHalf_number {b : Bytes} (h : b.size = 2) :
    ofHalf (UInt16.ofNat (number b.toList)) = b := by
  have hhalf : ofHalf (b.halfAt 0) = b.extract 0 (0 + 2) := Bytes.ofHalf_halfAt (by omega)
  rwa [halfAt, Bytes.extract_zero_size h] at hhalf

/-- So are four. -/
theorem Bytes.ofWord_number {b : Bytes} (h : b.size = 4) :
    ofWord (UInt32.ofNat (number b.toList)) = b := by
  have hword : ofWord (b.wordAt 0) = b.extract 0 (0 + 4) := Bytes.ofWord_wordAt (by omega)
  rwa [wordAt, Bytes.extract_zero_size h] at hword

/-- Four bytes that are read as a tag are the tag. -/
theorem Bytes.toArray_ofList? {b : Bytes} (h : b.size = 4) :
    ((Tag.ofList? b.toList).getD default).toArray = b := by
  have htag : ((Tag.ofList? (b.extract 0 (0 + 4)).toList).getD default).toArray
      = b.extract 0 (0 + 4) := Bytes.toArray_tag (by omega)
  rwa [Bytes.extract_zero_size h] at htag

/-- A piece of whole words is spelled by its words. -/
theorem Bytes.foldl_words {b : Bytes} {count : Nat} (h : b.size = 4 * count) :
    b.words.length = count ∧ (b.words.map ofWord).foldl (· ++ ·) #[] = b := by
  have hcount : b.size / 4 = count := by omega
  refine ⟨by rw [words, List.length_map, List.length_range, hcount], ?_⟩
  have hwords : ((List.range count).map fun k => ofWord (b.wordAt (0 + 4 * k))).foldl (· ++ ·) #[]
      = b.extract 0 (0 + 4 * count) := Bytes.foldl_ofWord count (by omega)
  simp only [Nat.zero_add, Bytes.extract_zero_size h] at hwords
  rw [words, hcount, List.map_map]
  exact hwords

/-- A request reads its bytes as a value if replies with the value are spelled by its encoding, and
the bytes are the encoding of the value that is made of them. -/
theorem Request.ReadsAs.ofValue {r : Request} {count : Nat} {reply : β → Reply} {encode : β → Bytes}
    (value : Bytes → β)
    (hsession : ∀ c, Session.step c r
      = Session.attempt (do return reply (value (← Cursor.take count))) c)
    (hinPlace : ∀ data, InPlace.step data r = do return reply (value (← InPlace.take data count)))
    (hspells : ∀ v, r.Spells (reply v) (encode v))
    (hencode : ∀ {b : Bytes}, b.size = count → encode (value b) = b) :
    r.ReadsAs count fun b => reply (value b) where
  session := hsession
  inPlace := hinPlace
  spells b hb := by
    have hvalue := hspells (value b)
    rwa [hencode hb] at hvalue

/-- Every request for a certain number of bytes is such a read. -/
theorem Request.exists_readsAs {r : Request} {count : Nat} (h : r.width? = some count) :
    ∃ answer, r.ReadsAs count answer := by
  cases r with
  | u8 =>
    cases h
    refine ⟨_, .ofValue (fun b => UInt8.ofNat (Bytes.number b.toList)) (fun c => ?_)
      (fun _ => rfl) .u8 Bytes.ofByte_number⟩
    simp only [Session.step, Cursor.u8, bind_assoc, pure_bind]
  | u16 =>
    cases h
    refine ⟨_, .ofValue (fun b => UInt16.ofNat (Bytes.number b.toList)) (fun c => ?_)
      (fun _ => rfl) .u16 Bytes.ofHalf_number⟩
    simp only [Session.step, Cursor.u16, bind_assoc, pure_bind]
  | u32 =>
    cases h
    refine ⟨_, .ofValue (fun b => UInt32.ofNat (Bytes.number b.toList)) (fun c => ?_)
      (fun _ => rfl) .u32 Bytes.ofWord_number⟩
    simp only [Session.step, Cursor.u32, bind_assoc, pure_bind]
  | float =>
    cases h
    refine ⟨_, .ofValue (fun b => UInt32.ofNat (Bytes.number b.toList)) (fun c => ?_)
      (fun _ => rfl) .float Bytes.ofWord_number⟩
    simp only [Session.step, Cursor.u32, bind_assoc, pure_bind]
  | tag =>
    cases h
    refine ⟨_, .ofValue (fun b => (Tag.ofList? b.toList).getD default) (fun c => ?_)
      (fun _ => rfl) .tag Bytes.toArray_ofList?⟩
    simp only [Session.step, Cursor.tag, bind_assoc, pure_bind]
  | header =>
    cases h
    refine ⟨_, .ofValue Header.ofBytes (fun c => ?_) (fun _ => rfl) .header fun {b} hb => ?_⟩
    · simp only [Session.step, Header.read, bind_assoc, pure_bind]
    · rw [Header.toBytes_ofBytes (Nat.le_of_eq hb.symm), Bytes.extract_zero_size hb]
  | bytes count =>
    cases h
    exact ⟨.bytes, fun _ => rfl, fun _ => rfl, fun b hb => hb ▸ Spells.bytes b⟩
  | words count =>
    obtain ⟨hcount, rfl⟩ : 4 * count ≤ Cursor.maxByteCount ∧ 4 * count = _ := by
      simpa [width?] using h
    -- words are read at once, or refused for their number
    refine ⟨fun b => .words (Bytes.words b), fun c => ?_, fun data => ?_, fun b hb => ?_⟩
    · simp only [Session.step]
      congr 1
      funext c
      simp only [Bind.bind, StateT.bind, Cursor.words, if_pos hcount]
      cases Cursor.take (4 * count) c <;> rfl
    · simp only [InPlace.step, InPlace.words, if_neg (Nat.not_lt.2 hcount), pure_bind, bind_assoc]
    · obtain ⟨hlength, hbytes⟩ := Bytes.foldl_words hb
      have hspells := Spells.words (Bytes.words b)
      rwa [hlength, hbytes] at hspells
  -- the others have no width of their own
  | peek | rest | string | stringAt | seek => cases h

namespace Request.ReadsAs

variable {r : Request} {count : Nat} {answer : Bytes → Reply}

/-- There is room for the read, in a session. -/
theorem step_of_le (h : r.ReadsAs count answer) {c : Cursor}
    (hroom : c.position + count ≤ c.data.size) :
    Session.step c r = (.ok (answer (c.data.extract c.position (c.position + count))),
      ⟨c.data, c.position + count, hroom⟩) := by
  rw [h.session]
  simp only [Session.attempt, Bind.bind, StateT.bind, Cursor.take_eq_ok hroom]
  rfl

/-- There is none, and the session keeps its cursor. -/
theorem step_of_lt (h : r.ReadsAs count answer) {c : Cursor}
    (hshort : c.data.size < c.position + count) :
    Session.step c r = (.error (.endOfData count c.remaining), c) := by
  rw [h.session]
  simp only [Session.attempt, Bind.bind, StateT.bind, Cursor.take_eq_error hshort]
  rfl

/-- A read in place answers and moves like a step of a session. -/
theorem inPlace_eq (h : r.ReadsAs count answer) (c : Cursor) :
    InPlace.step c.data r c.position = ((Session.step c r).1, (Session.step c r).2.position) := by
  rw [h.inPlace]
  by_cases hroom : c.position + count ≤ c.data.size
  · rw [h.step_of_le hroom, InPlace.bind_of_ok (InPlace.take_of_le hroom)]
    rfl
  · have hshort : c.data.size < c.position + count := Nat.not_le.1 hroom
    rw [h.step_of_lt hshort, InPlace.bind_of_error (InPlace.take_of_lt c.position_le hshort)]
    rfl

end Request.ReadsAs

/-- A request for more words than there are byte counts is refused. -/
theorem step_words_of_lt (c : Cursor) {count : Nat} (h : Cursor.maxByteCount < 4 * count) :
    Session.step c (.words count)
      = (.error (.endOfData Cursor.maxByteCount c.remaining), c) := by
  simp only [Session.step, Session.attempt, Bind.bind, StateT.bind, Cursor.words,
    if_neg (Nat.not_le.2 h)]
  rfl

theorem inPlace_words_of_lt (data : Bytes) (position : Nat) {count : Nat}
    (h : Cursor.maxByteCount < 4 * count) :
    InPlace.step data (.words count) position
      = (.error (.endOfData Cursor.maxByteCount (InPlace.remaining data position)), position) := by
  simp only [InPlace.step, InPlace.words, if_pos h]
  rfl

/-! ### Strings

A string is the one request that moves before it may fail. Both readers pass its terminator as soon
as they have found it and look at the bytes only then, so both stand behind the terminator of bytes
that are no text. -/

/-- Bytes stand at a position in front of a zero byte, and none of them is zero. -/
structure EndedAt (data : Bytes) (position : Nat) (bytes : Bytes) : Prop where
  bytes_eq : data.extract position (position + bytes.size) = bytes
  ends : data[position + bytes.size]? = some 0
  ne_zero : ∀ b ∈ bytes, b ≠ 0

/-- The bytes of a text end where the text ends. -/
theorem endedAt_encode_iff {data : Bytes} {position : Nat} {text : String} :
    EndedAt data position (Utf8.encode text) ↔ TextAt data position text :=
  ⟨fun h => ⟨h.bytes_eq, h.ends, h.ne_zero⟩, fun h => ⟨h.bytes_eq, h.ends, h.ne_zero⟩⟩

/-- Looking for a terminator: where it is found, or that there is none. -/
theorem terminated_cases (c : Cursor) :
    (c.rest.findIdx? (· == 0) = none ∧
      Cursor.terminated c = .error (.unterminated c.position)) ∨
    ∃ length c', c.rest.findIdx? (· == 0) = some length ∧
      Cursor.terminated c = .ok (c.data.extract c.position (c.position + length), c') ∧
      c'.data = c.data ∧ c'.position = c.position + length + 1 := by
  unfold Cursor.terminated
  split
  · next hnone => exact .inl ⟨hnone, rfl⟩
  · next length hsome => exact .inr ⟨length, _, hsome, rfl, rfl, rfl⟩

namespace InPlace

/-- What is made of an answer moves no further. -/
theorem map_eq (move : Move α) (f : α → β) (position : Nat) :
    (do return f (← move) : Move β) position = ((move position).1.map f, (move position).2) := by
  rcases h : move position with ⟨answer, position'⟩
  cases answer with
  | error e => rw [bind_of_error h]; rfl
  | ok a => rw [bind_of_ok h]; rfl

/-- A string is passed over once its terminator is found. -/
theorem string_eq (c : Cursor) :
    string c.data c.position = match Cursor.terminated c with
      | .error e => (.error e, c.position)
      | .ok (bytes, c') => ((Utf8.decode bytes).mapError .text, c'.position) := by
  rcases terminated_cases c with ⟨hnone, hterminated⟩ | ⟨length, c', hsome, hterminated, -, hc'⟩
  · rw [hterminated]
    refine (bind_get _ c.position).trans ?_
    rw [show (c.data.extract c.position c.data.size).findIdx? (· == 0) = none from hnone]
    rfl
  · simp only [hterminated, hc']
    refine (bind_get _ c.position).trans ?_
    rw [show (c.data.extract c.position c.data.size).findIdx? (· == 0) = some length from hsome]
    refine (bind_set _ (c.position + length + 1) c.position).trans ?_
    cases Utf8.decode (c.data.extract c.position (c.position + length)) <;> rfl

/-- Within the buffer and at its end there is a position. -/
theorem seek_of_le {data : Bytes} {position : Nat} (h : position ≤ data.size) (old : Nat) :
    seek data position old = (.ok ⟨⟩, position) := by
  unfold seek
  rw [if_neg (Nat.not_lt.2 h)]
  rfl

/-- Behind the end there is none, and the old position stays. -/
theorem seek_of_lt {data : Bytes} {position : Nat} (h : data.size < position) (old : Nat) :
    seek data position old = (.error (.outOfBounds position data.size), old) := by
  unfold seek
  rw [if_pos h]
  rfl

/-- A string at another position is read like one at a cursor that stands there. -/
theorem stringAt_eq (c : Cursor) (position : Nat) :
    stringAt c.data position c.position = (c.stringAt position, c.position) := by
  unfold stringAt Cursor.stringAt Cursor.seek
  by_cases hposition : position ≤ c.data.size
  · rw [bind_of_ok (seek_of_le hposition c.position), dif_pos hposition,
      string_eq ⟨c.data, position, hposition⟩]
    simp only [bind, Except.bind, Cursor.string_eq]
    cases Cursor.terminated ⟨c.data, position, hposition⟩ with
    | error e => rfl
    | ok p =>
      dsimp only
      cases Utf8.decode p.1 <;> rfl
  · rw [bind_of_error (seek_of_lt (Nat.not_le.1 hposition) c.position), dif_neg hposition]
    rfl

end InPlace

theorem Session.string_eq (c : Cursor) :
    string c = match Cursor.terminated c with
      | .error e => (.error e, c)
      | .ok (bytes, c') => (((Utf8.decode bytes).mapError .text).map .text, c') := by
  unfold string
  cases Cursor.terminated c with
  | error e => rfl
  | ok p =>
    dsimp only
    cases Utf8.decode p.1 <;> rfl

/-- Reading in place answers like a step of a session, and ends at its position. -/
theorem InPlace.step_eq (c : Cursor) (r : Request) :
    step c.data r c.position = ((Session.step c r).1, (Session.step c r).2.position) := by
  have hread {count : Nat} (h : r.width? = some count) :
      step c.data r c.position = ((Session.step c r).1, (Session.step c r).2.position) :=
    (Request.exists_readsAs h).elim fun _ hreads => hreads.inPlace_eq c
  cases r with
  | u8 | u16 | u32 | float | tag | bytes | header => exact hread rfl
  | words count =>
    -- the length of the words is checked before any of them is read
    by_cases hcount : 4 * count ≤ Cursor.maxByteCount
    · exact hread (if_pos hcount)
    · rw [step_words_of_lt c (Nat.not_le.1 hcount),
        inPlace_words_of_lt c.data c.position (Nat.not_le.1 hcount)]
      rfl
  | peek count =>
    refine (map_eq (peek c.data count) Reply.bytes c.position).trans ?_
    simp only [Session.step, Session.inspect, Cursor.peek]
    by_cases hroom : c.position + count ≤ c.data.size
    · rw [peek_of_le hroom, Cursor.take_eq_ok hroom]
      rfl
    · rw [peek_of_lt c.position_le (Nat.not_le.1 hroom), Cursor.take_eq_error (Nat.not_le.1 hroom)]
      rfl
  | rest => rfl
  | string =>
    refine (map_eq (string c.data) Reply.text c.position).trans ?_
    rw [string_eq, Session.step, Session.string_eq]
    cases Cursor.terminated c <;> rfl
  | stringAt position =>
    refine (map_eq (stringAt c.data position) Reply.text c.position).trans ?_
    rw [stringAt_eq]
    rfl
  | seek position =>
    simp only [Session.step, Session.attempt, Cursor.seek]
    by_cases hposition : position ≤ c.data.size
    · rw [dif_pos hposition]
      exact bind_of_ok (seek_of_le hposition c.position)
    · rw [dif_neg hposition]
      exact bind_of_error (seek_of_lt (Nat.not_le.1 hposition) c.position)

end ShaderBytecode
