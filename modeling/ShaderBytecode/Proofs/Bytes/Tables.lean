import ShaderBytecode.Proofs.Bytes.Sessions

/-!
# Tables that are read item by item

A table is read by one request for each of its items. Words can also be asked for all at once, which
multiplies their number, takes one piece of the buffer and cuts it up:

    Session.words_at_once     : words are read at once exactly if as many single reads succeed, and
                                then they are the same words and the cursor is at the same place

Strings stand one behind the other, each with the zero byte that ends it. A cursor in front of such
a table comes behind it with the strings that were written:

    Session.strings_read_back : what was written as strings is read as these strings

Both go from what one request does to what a run of requests does. A run begins where its first
request has left the cursor (`Session.after_cons`).

The two ways to read words differ in what is checked first. One request multiplies the number by
four before it looks at the buffer, so it can fail for a reason that single reads never have: the
product is no byte count. In a buffer whose size is a byte count that product is more than the
buffer holds, and then single reads run out of bytes as well, only later.
-/

namespace ShaderBytecode

namespace Session

/-- The cursor after a run of requests. -/
def after (c : Cursor) (requests : List Request) : Cursor :=
  ((run c requests).map Prod.snd).getLastD c

/-- A run goes on from where its first request has left the cursor. -/
theorem after_cons (c : Cursor) (r : Request) (rs : List Request) :
    after c (r :: rs) = after (step c r).2 rs := by
  rw [after, run, List.map_cons, List.getLastD_cons]
  rfl

/-! ### Words

Each of the two ways has one law for words that are there and one for words that are not. The number
is what the induction is on, and the cursor moves along with it. -/

/-- A word that is there is read. -/
theorem step_u32_of_le {c : Cursor} (h : c.position + 4 ≤ c.data.size) :
    step c .u32
      = (.ok (.number (c.data.wordAt c.position).toNat), ⟨c.data, c.position + 4, h⟩) := by
  simp only [step, attempt, Cursor.u32, Bind.bind, StateT.bind, Cursor.take_eq_ok h]
  rfl

/-- A word that is cut off is refused. -/
theorem step_u32_of_lt {c : Cursor} (h : c.data.size < c.position + 4) :
    step c .u32 = (.error (.endOfData 4 c.remaining), c) := by
  simp only [step, attempt, Cursor.u32, Bind.bind, StateT.bind, Cursor.take_eq_error h]
  rfl

/-- Words that are there are read in one piece. -/
theorem step_words_of_le {c : Cursor} {n : Nat} (hn : 4 * n ≤ Cursor.maxByteCount)
    (h : c.position + 4 * n ≤ c.data.size) :
    step c (.words n)
      = (.ok (.words ((List.range n).map fun k => c.data.wordAt (c.position + 4 * k))),
          ⟨c.data, c.position + 4 * n, h⟩) := by
  simp only [step, attempt, Bind.bind, StateT.bind, Cursor.words_eq_ok hn h]
  rfl

/-- Words for which there is no room are refused, whether or not their length is a byte count. -/
theorem exists_step_words_eq_error {c : Cursor} {n : Nat}
    (h : c.data.size < c.position + 4 * n) : ∃ e, step c (.words n) = (.error e, c) := by
  by_cases hn : 4 * n ≤ Cursor.maxByteCount
  · refine ⟨.endOfData (4 * n) c.remaining, ?_⟩
    simp only [step, attempt, Bind.bind, StateT.bind, Cursor.words_eq_error hn h]
    rfl
  · exact ⟨_, step_words_of_lt c (Nat.not_le.1 hn)⟩

/-- Words for which there is room are read one by one as they stand. -/
theorem run_u32_of_le {c : Cursor} {n : Nat} (h : c.position + 4 * n ≤ c.data.size) :
    (run c (List.replicate n .u32)).map Prod.fst
        = ((List.range n).map fun k => c.data.wordAt (c.position + 4 * k)).map
            (fun w => .ok (.number w.toNat)) ∧
      after c (List.replicate n .u32) = ⟨c.data, c.position + 4 * n, h⟩ := by
  induction n generalizing c with
  | zero => exact ⟨rfl, rfl⟩
  | succ n ih =>
    have hfirst : c.position + 4 ≤ c.data.size := by omega
    -- the other words stand behind the first
    have hrest : c.position + 4 + 4 * n ≤ c.data.size := by omega
    have hplace (k : Nat) : c.position + 4 + 4 * k = c.position + 4 * (k + 1) := by omega
    obtain ⟨hanswers, hafter⟩ := @ih ⟨c.data, c.position + 4, hfirst⟩ hrest
    rw [List.replicate_succ, after_cons, run, step_u32_of_le hfirst]
    constructor
    · rw [List.map_cons, hanswers, List.range_succ_eq_map]
      simp only [List.map_cons, List.map_map, Function.comp_def, hplace, Nat.mul_zero, Nat.add_zero,
        Nat.succ_eq_add_one]
    · simp only [hafter, hplace]

/-- Of words for which there is no room one is refused. -/
theorem exists_error_mem_run_u32 {c : Cursor} {n : Nat} (h : c.data.size < c.position + 4 * n) :
    ∃ entry ∈ run c (List.replicate n .u32), ∃ e, entry.1 = .error e := by
  induction n generalizing c with
  | zero => exact absurd c.position_le (Nat.not_le.2 h)
  | succ n ih =>
    rw [List.replicate_succ, run]
    by_cases hfirst : c.position + 4 ≤ c.data.size
    · have hrest : c.data.size < c.position + 4 + 4 * n := by omega
      obtain ⟨entry, hentry, hrefused⟩ := @ih ⟨c.data, c.position + 4, hfirst⟩ hrest
      rw [step_u32_of_le hfirst]
      exact ⟨entry, List.mem_cons_of_mem _ hentry, hrefused⟩
    · rw [step_u32_of_lt (Nat.not_le.1 hfirst)]
      exact ⟨_, List.mem_cons_self, _, rfl⟩

/-- Words are read at once exactly if there is room for them. -/
theorem words_given_iff {c : Cursor} (hsize : c.data.size ≤ Cursor.maxByteCount) {n : Nat} :
    (∃ ws, (step c (.words n)).1 = .ok (.words ws)) ↔ c.position + 4 * n ≤ c.data.size := by
  constructor
  · rintro ⟨ws, hws⟩
    refine Nat.le_of_not_lt fun hshort => ?_
    obtain ⟨e, he⟩ := exists_step_words_eq_error hshort
    rw [he] at hws
    cases hws
  · intro hroom
    exact ⟨_, congrArg Prod.fst (step_words_of_le (by omega) hroom)⟩

/-- Single reads all succeed exactly if there is room for the words. -/
theorem run_u32_given_iff {c : Cursor} {n : Nat} :
    (∀ entry ∈ run c (List.replicate n .u32), ∃ w, entry.1 = .ok (.number w)) ↔
      c.position + 4 * n ≤ c.data.size := by
  constructor
  · intro hgiven
    refine Nat.le_of_not_lt fun hshort => ?_
    obtain ⟨entry, hentry, e, he⟩ := exists_error_mem_run_u32 hshort
    obtain ⟨w, hw⟩ := hgiven entry hentry
    cases he.symm.trans hw
  · intro hroom entry hentry
    have hanswer := List.mem_map_of_mem (f := Prod.fst) hentry
    rw [(run_u32_of_le hroom).1] at hanswer
    obtain ⟨w, -, hw⟩ := List.mem_map.1 hanswer
    exact ⟨_, hw.symm⟩

/-- **Words are read at once as they are read one by one.** In a buffer whose size is a byte count,
any number of words is read at once exactly if as many single reads all succeed. Then the words are
those of the single reads, and the cursor is where these leave it. Otherwise the request is refused
and the cursor stays, also where the length of the words is no byte count. A reader that moves one
position as it goes does the same. -/
theorem words_at_once {c : Cursor} (hsize : c.data.size ≤ Cursor.maxByteCount) (n : Nat) :
    let bulk := step c (.words n)
    let singles := run c (List.replicate n .u32)
    ((∃ ws, bulk.1 = .ok (.words ws)) ↔ ∀ entry ∈ singles, ∃ w, entry.1 = .ok (.number w)) ∧
    (∀ ws, bulk.1 = .ok (.words ws) → ws.length = n ∧
      singles.map Prod.fst = ws.map (fun w => .ok (.number w.toNat)) ∧
      bulk.2 = after c (List.replicate n .u32)) ∧
    ((¬ ∃ ws, bulk.1 = .ok (.words ws)) → (∃ e, bulk.1 = .error e) ∧ bulk.2 = c) ∧
    (Cursor.maxByteCount < 4 * n →
      bulk = (.error (.endOfData Cursor.maxByteCount c.remaining), c)) ∧
    InPlace.step c.data (.words n) c.position = (bulk.1, bulk.2.position) ∧
    InPlace.run c.data c.position (List.replicate n .u32)
      = singles.map fun entry => (entry.1, entry.2.position) := by
  intro bulk singles
  have hgiven : (∃ ws, bulk.1 = .ok (.words ws)) ↔ _ := words_given_iff hsize
  refine ⟨hgiven.trans run_u32_given_iff.symm, ?_, ?_, step_words_of_lt c, InPlace.step_eq c _,
    InPlace.run_eq c _⟩
  · -- there is room for all of them
    intro ws hws
    have hroom : c.position + 4 * n ≤ c.data.size := hgiven.1 ⟨ws, hws⟩
    have hbulk : bulk = _ := step_words_of_le (by omega) hroom
    obtain ⟨hanswers, hafter⟩ := run_u32_of_le hroom
    cases (congrArg Prod.fst hbulk).symm.trans hws
    refine ⟨?_, hanswers, (congrArg Prod.snd hbulk).trans hafter.symm⟩
    rw [List.length_map, List.length_range]
  · -- there is not, so the bulk read stops and the position stays
    intro hrefused
    obtain ⟨e, he⟩ := exists_step_words_eq_error (Nat.not_le.1 (mt hgiven.2 hrefused))
    exact ⟨⟨e, congrArg Prod.fst he⟩, congrArg Prod.snd he⟩

/-- Ten bytes, and a cursor behind the first of them. -/
def tenBytes : Cursor := ⟨#[0, 1, 0, 0, 0, 2, 0, 0, 0, 3], 1, by decide⟩

/-- Two words are read at once, three are refused, and so are those whose length is the first that
is no byte count. -/
theorem words_at_once_tenBytes :
    (step tenBytes (.words 2)).1 = .ok (.words [1, 2]) ∧
      ((run tenBytes [.u32, .u32]).map Prod.fst = [.ok (.number 1), .ok (.number 2)] ∧
        (step tenBytes (.words 2)).2 = after tenBytes [.u32, .u32]) ∧
      (step tenBytes (.words 3)).2 = tenBytes ∧
      ∃ e, InPlace.step tenBytes.data (.words 0x4000000000000000) 1 = (.error e, 1) := by
  have hsize : tenBytes.data.size ≤ Cursor.maxByteCount := by decide
  have htwo : (step tenBytes (.words 2)).1 = .ok (.words [1, 2]) := rfl
  obtain ⟨-, hvalues, -⟩ := words_at_once hsize 2
  obtain ⟨-, hanswers, hafter⟩ := hvalues _ htwo
  obtain ⟨-, -, hrefused, -⟩ := words_at_once hsize 3
  obtain ⟨-, hkept⟩ := hrefused (by rintro ⟨ws, hws⟩; cases hws)
  obtain ⟨-, -, -, hwide, hplace, -⟩ := words_at_once hsize 0x4000000000000000
  rw [hwide (by decide)] at hplace
  exact ⟨htwo, ⟨hanswers, hafter⟩, hkept, _, hplace⟩

end Session

/-! ### Strings

A table of strings has no index, and nothing but the zero bytes tells where a string begins. That
the reads come out right needs strings without zeros, which is what `NulFree` asks for. -/

namespace Utf8

/-- A string with the zero byte that ends it. -/
def terminated (text : String) : Bytes := encode text ++ #[0]

/-- Strings one behind the other, each with the zero byte that ends it. -/
def table : List String → Bytes
  | [] => #[]
  | text :: texts => terminated text ++ table texts

/-- Two tables, one behind the other, are a table. -/
theorem table_append (texts texts' : List String) :
    table (texts ++ texts') = table texts ++ table texts' := by
  induction texts with
  | nil => exact Array.empty_append.symm
  | cons text texts ih => rw [List.cons_append, table, ih, table, Array.append_assoc]

end Utf8

/-- The cursor behind one part of a buffer and in front of the other. -/
def Cursor.between (front back : Bytes) : Cursor :=
  ⟨front ++ back, front.size, by rw [Array.size_append]; exact Nat.le_add_right _ _⟩

/-- A piece between two others stands behind the first of them. -/
theorem Bytes.pieceAt_between (front piece back : Bytes) :
    PieceAt (front ++ (piece ++ back)) front.size piece := by
  have h := pieceAt_self (front ++ (piece ++ back))
  rw [pieceAt_append_iff, pieceAt_append_iff, Nat.zero_add] at h
  exact h.2.1

namespace Session

/-- A string is read, and its terminator is passed. -/
theorem step_string_between {text : String} (htext : NulFree text) (front back : Bytes) :
    step (.between front (Utf8.terminated text ++ back)) .string
      = (.ok (.text text), .between (front ++ Utf8.terminated text) back) := by
  -- the text stands behind the front, with its zero
  have hat : TextAt (front ++ (Utf8.terminated text ++ back)) front.size text :=
    .of_pieceAt htext (Bytes.pieceAt_between _ _ _)
  have hposition : (front ++ Utf8.terminated text).size
      = front.size + (Utf8.encode text).size + 1 := by
    rw [Utf8.terminated, Array.size_append, Array.size_append, Nat.add_assoc]
    rfl
  have hterminated : Cursor.terminated (.between front (Utf8.terminated text ++ back))
      = .ok (Utf8.encode text, .between (front ++ Utf8.terminated text) back) :=
    Cursor.terminated_eq_ok_iff.2
      ⟨Array.append_assoc, hposition, hat.bytes_eq, hat.ends, hat.ne_zero⟩
  rw [step, string_eq, hterminated]
  dsimp only
  rw [Utf8.decode_eq_ok_iff.2 rfl]
  rfl

/-- A text is read where it stands, and the cursor stays. -/
theorem step_stringAt {c : Cursor} {position : Nat} {text : String}
    (h : TextAt c.data position text) :
    step c (.stringAt position) = (.ok (.text text), c) := by
  rw [step, Cursor.stringAt_eq_ok_iff.2 h]
  rfl

/-- The strings of a table are read one after the other, and then the cursor is behind it. The
induction is on the strings, and what has been read becomes part of the front. -/
theorem run_string_between {texts : List String} (h : ∀ text ∈ texts, NulFree text)
    (front back : Bytes) :
    (run (.between front (Utf8.table texts ++ back)) (List.replicate texts.length .string)).map
        Prod.fst = texts.map (fun text => .ok (.text text)) ∧
      after (.between front (Utf8.table texts ++ back)) (List.replicate texts.length .string)
        = .between (front ++ Utf8.table texts) back := by
  induction texts generalizing front with
  | nil =>
    rw [Utf8.table, Array.empty_append, Array.append_empty]
    exact ⟨rfl, rfl⟩
  | cons text texts ih =>
    obtain ⟨htext, htexts⟩ := List.forall_mem_cons.1 h
    obtain ⟨hanswers, hafter⟩ := ih htexts (front ++ Utf8.terminated text)
    rw [List.length_cons, List.replicate_succ, after_cons, run, Utf8.table, Array.append_assoc,
      step_string_between htext, List.map_cons, hanswers, hafter, Array.append_assoc]
    exact ⟨rfl, rfl⟩

/-- A string of a table stands behind the strings in front of it. -/
theorem textAt_table {texts : List String} (h : ∀ text ∈ texts, NulFree text) {k : Nat}
    {text : String} (hk : texts[k]? = some text) (front back : Bytes) :
    TextAt (front ++ (Utf8.table texts ++ back))
      (front.size + (Utf8.table (texts.take k)).size) text := by
  obtain ⟨hlt, rfl⟩ := List.getElem?_eq_some_iff.1 hk
  -- the strings in front of the one that is looked for, this one, and those behind it
  have htable : Utf8.table texts = Utf8.table (texts.take k) ++
      (Utf8.terminated texts[k] ++ Utf8.table (texts.drop (k + 1))) := by
    rw [← Utf8.table, ← Utf8.table_append, ← List.drop_eq_getElem_cons hlt, List.take_append_drop]
  have hpiece := Bytes.pieceAt_between (front ++ Utf8.table (texts.take k))
    (Utf8.terminated texts[k]) (Utf8.table (texts.drop (k + 1)) ++ back)
  rw [Array.size_append] at hpiece
  refine .of_pieceAt (h _ (List.getElem_mem hlt)) ?_
  rw [htable]
  simpa only [Array.append_assoc, Utf8.terminated] using hpiece

/-- **Strings read back.** Strings without zeros that stand in a buffer one behind the other, as
UTF-8 with a zero byte behind each, are read in their order from the end of what stands in front of
them, and leave the cursor behind the last zero byte. From anywhere in the buffer each of them is
read at the place where it begins, and the cursor stays. -/
theorem strings_read_back {texts : List String} (h : ∀ text ∈ texts, NulFree text)
    (front back : Bytes) :
    let c := Cursor.between front (Utf8.table texts ++ back)
    let reads := List.replicate texts.length Request.string
    (run c reads).map Prod.fst = texts.map (fun text => .ok (.text text)) ∧
    after c reads = .between (front ++ Utf8.table texts) back ∧
    (∀ (k : Nat) (text : String), texts[k]? = some text → ∀ c' : Cursor, c'.data = c.data →
      step c' (.stringAt (front.size + (Utf8.table (texts.take k)).size))
        = (.ok (.text text), c')) ∧
    InPlace.run c.data c.position reads
      = (run c reads).map fun entry => (entry.1, entry.2.position) := by
  intro c reads
  obtain ⟨hanswers, hafter⟩ := run_string_between h front back
  refine ⟨hanswers, hafter, fun k text hk c' hdata => step_stringAt ?_, InPlace.run_eq c _⟩
  rw [hdata]
  exact textAt_table h hk front back

/-- Strings of several kinds of characters, one of them empty, between other bytes. -/
theorem strings_read_back_severalWidths :
    let c := Cursor.between #[0, 255]
      (#[0xC3, 0xA9, 0, 0, 0xF0, 0x9F, 0x98, 0x80, 0x78, 0] ++ #[7])
    (run c [.string, .string, .string]).map Prod.fst
        = [.ok (.text "é"), .ok (.text ""), .ok (.text "😀x")] ∧
      (after c [.string, .string, .string]).position = 12 ∧
      step c (.stringAt 6) = (.ok (.text "😀x"), c) := by
  intro c
  have hfree : ∀ text ∈ ["é", "", "😀x"], NulFree text := by
    unfold NulFree
    simp
  have htable : Utf8.table ["é", "", "😀x"]
      = #[0xC3, 0xA9, 0, 0, 0xF0, 0x9F, 0x98, 0x80, 0x78, 0] := by
    decide +kernel
  have hfront : Utf8.table ["é", ""] = #[0xC3, 0xA9, 0, 0] := by decide +kernel
  obtain ⟨hanswers, hafter, hat, -⟩ := strings_read_back hfree #[0, 255] #[7]
  rw [htable] at hanswers hafter hat
  refine ⟨hanswers, (congrArg Cursor.position hafter).trans rfl, ?_⟩
  have hlast := hat 2 _ rfl c rfl
  rwa [show ["é", "", "😀x"].take 2 = ["é", ""] from rfl, hfront] at hlast

end Session
end ShaderBytecode
