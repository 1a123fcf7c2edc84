import ShaderBytecode.Proofs.Bytes.Records
import ShaderBytecode.Signature.Decode

/-!
# Writing signatures

A signature is written as the number of its elements, the position of their records, the records and
a table of the names. `Written layout payload position e` says what the record of an element holds
in each of the layouts, `Encodes layout elements payload` that the records of all elements stand one
behind the other, and `encode layout elements` is such a payload. Decoding finds the elements again:

    encodes_encode : Fits layout elements → Encodes layout elements (encode layout elements)
    decode_of_encodes : Encodes layout elements payload →
      decode tag payload = .ok ⟨elements.map layout.kept⟩

What a layout has no room for is not found again, so elements that differ in nothing else are the
same in it (`Layout.kept`).

`encode` is one way to write a signature, and not the only one: names may stand anywhere, may be
shared, and may stand in front of the records. So what decoding needs is said about a payload
(`Encodes`), without saying how it came about.
-/

namespace ShaderBytecode

namespace Signature

open Decode

/-! ### Layouts

The layouts differ in two fields, one in front of the others and one behind them. Both records begin
with the same fields otherwise, only that the stream moves them by one word. -/

namespace Layout

/-- The tags of the chunks that have a layout. -/
def tags : Layout → List Tag
  | basic => [.ascii 'I' 'S' 'G' 'N', .ascii 'O' 'S' 'G' 'N', .ascii 'P' 'C' 'S' 'G']
  | stream => [.ascii 'O' 'S' 'G' '5']
  | streamPrecision => [.ascii 'I' 'S' 'G' '1', .ascii 'O' 'S' 'G' '1', .ascii 'P' 'S' 'G' '1']

/-- A tag of a layout is decoded with that layout. -/
theorem ofTag?_of_mem {tag : Tag} {layout : Layout} (h : tag ∈ layout.tags) :
    ofTag? tag = some layout := by
  have htags : ∀ tag ∈ layout.tags, ofTag? tag = some layout := by
    cases layout <;> decide
  exact htags tag h

/-- Where the fields begin that all layouts share. -/
def shared : Layout → Nat
  | basic => 0
  | stream | streamPrecision => 4

/-- What is left of an element in a layout. -/
def kept (layout : Layout) (e : SignatureElement) : SignatureElement :=
  match layout with
  | basic => { e with stream := 0, minPrecision := .full }
  | stream => { e with minPrecision := .full }
  | streamPrecision => e

/-- What the basic layout keeps, every layout keeps. -/
theorem basic_kept_kept (layout : Layout) (e : SignatureElement) :
    basic.kept (layout.kept e) = basic.kept e := by
  cases layout <;> rfl

end Layout

/-! ### What a payload holds -/

/-- An element whose values are those of their codes. -/
structure Canonical (e : SignatureElement) : Prop where
  systemValue : SystemValue.ofCode e.systemValue.code = e.systemValue
  componentType : ComponentType.ofCode e.componentType.code = e.componentType

/-- The record at a position holds an element, as far as the layout has room for it. -/
structure Written (layout : Layout) (payload : Bytes) (position : Nat)
    (e : SignatureElement) : Prop where
  room : position + layout.recordBytes ≤ payload.size
  stream : layout ≠ .basic → payload.wordAt position = e.stream
  name : TextAt payload (payload.wordAt (position + layout.shared)).toNat e.name
  semanticIndex : payload.wordAt (position + layout.shared + 4) = e.semanticIndex
  systemValue : payload.wordAt (position + layout.shared + 8) = e.systemValue.code
  componentType : payload.wordAt (position + layout.shared + 12) = e.componentType.code
  register : payload.wordAt (position + layout.shared + 16) = e.register
  mask : payload.byteAt (position + layout.shared + 20) = e.mask
  accessMask : payload.byteAt (position + layout.shared + 21) = e.accessMask
  minPrecision : layout = .streamPrecision →
    payload.wordAt (position + layout.shared + 24) = e.minPrecision.code

/-- A payload holds elements: it begins with their number and with the position of their records,
which stand one behind the other. -/
structure Encodes (layout : Layout) (elements : List SignatureElement) (payload : Bytes) :
    Prop where
  room : 8 ≤ payload.size
  count : (payload.wordAt 0).toNat = elements.length
  written : ∀ index e, elements[index]? = some e →
    Written layout payload ((payload.wordAt 4).toNat + index * layout.recordBytes) e

/-! ### Decoding

A record is read as its shared fields, with the layout adding what it has in front and behind. The
four lemmas `elementFields_…` and `readsRecord_…` say this once for each layout, and the rest does
not look at layouts any more. -/

/-- The head is the number of elements and the position of their records. -/
theorem readsRecord_head :
    ReadsRecord (do return (← Cursor.u32, ← Cursor.u32) : Decode (UInt32 × UInt32)) 8
      fun data p => .ok (data.wordAt p, data.wordAt (p + 4)) :=
  readsRecord_u32.bind fun _ => readsRecord_u32.bind fun _ => readsRecord_pure _

/-- The fields that all layouts share: the position of the name, and the element that it, the stream
and the minimum precision complete. -/
def sharedFields : Decode (UInt32 × (String → UInt32 → MinPrecision → SignatureElement)) := do
  let name ← Cursor.u32
  let semanticIndex ← Cursor.u32
  let systemValue := SystemValue.ofCode (← Cursor.u32)
  let componentType := ComponentType.ofCode (← Cursor.u32)
  let register ← Cursor.u32
  let mask ← Cursor.u8
  let accessMask ← Cursor.u8
  let _ ← Cursor.u16
  return (name, fun name stream minPrecision =>
    ⟨name, semanticIndex, systemValue, componentType, register, mask, accessMask, stream,
      minPrecision⟩)

/-- What the shared fields are at a position. -/
def sharedAt (data : Bytes) (p : Nat) :
    UInt32 × (String → UInt32 → MinPrecision → SignatureElement) :=
  (data.wordAt p, fun name stream minPrecision =>
    ⟨name, data.wordAt (p + 4), SystemValue.ofCode (data.wordAt (p + 8)),
      ComponentType.ofCode (data.wordAt (p + 12)), data.wordAt (p + 16), data.byteAt (p + 20),
      data.byteAt (p + 21), stream, minPrecision⟩)

/-- The shared fields take 24 bytes, two of which are not looked at. -/
theorem readsRecord_sharedFields :
    ReadsRecord sharedFields 24 fun data p => .ok (sharedAt data p) :=
  readsRecord_u32.bind fun _ => readsRecord_u32.bind fun _ => readsRecord_u32.bind fun _ =>
    readsRecord_u32.bind fun _ => readsRecord_u32.bind fun _ => readsRecord_u8.bind fun _ =>
    readsRecord_u8.bind fun _ => readsRecord_u16.bind fun _ => readsRecord_pure _

/-- The basic layout has the shared fields only. -/
theorem elementFields_basic : elementFields .basic =
    (fun shared => (shared.1, fun name => shared.2 name 0 .full)) <$> sharedFields := by
  simp only [elementFields, sharedFields, map_bind, map_pure, pure_bind]

/-- The layout with streams has the stream in front. -/
theorem elementFields_stream : elementFields .stream = (do
    let stream ← Cursor.u32
    (fun shared => (shared.1, fun name => shared.2 name stream .full)) <$> sharedFields) := by
  simp only [elementFields, sharedFields, map_bind, map_pure, pure_bind]

/-- The third layout has the minimum precision behind the shared fields as well. -/
theorem elementFields_streamPrecision : elementFields .streamPrecision = (do
    let stream ← Cursor.u32
    let shared ← sharedFields
    let minPrecision ← MinPrecision.ofCode <$> (Cursor.u32 : Read UInt32)
    return (shared.1, fun name => shared.2 name stream minPrecision)) := by
  simp only [elementFields, sharedFields, bind_assoc, pure_bind]

/-- The fields of a record, of which those that the layout lacks have their default. -/
theorem readsRecord_elementFields (layout : Layout) :
    ReadsRecord (elementFields layout) layout.recordBytes fun data p =>
      .ok ((sharedAt data (p + layout.shared)).1, fun name => layout.kept
        ((sharedAt data (p + layout.shared)).2 name (data.wordAt p)
          (MinPrecision.ofCode (data.wordAt (p + layout.shared + 24))))) := by
  cases layout with
  | basic =>
    rw [elementFields_basic]
    exact readsRecord_sharedFields.map _
  | stream =>
    rw [elementFields_stream]
    exact readsRecord_u32.bind fun _ => readsRecord_sharedFields.map _
  | streamPrecision =>
    rw [elementFields_streamPrecision]
    exact readsRecord_u32.bind fun _ => readsRecord_sharedFields.bind fun _ =>
      (readsRecord_u32.map MinPrecision.ofCode).bind fun _ => readsRecord_pure _

/-- An element that was written is found again, as far as the layout has room for it. -/
theorem elementAt_of_written {layout : Layout} {payload : Bytes} {position : Nat}
    {e : SignatureElement} (h : Written layout payload position e) (hcanonical : Canonical e) :
    elementAt payload layout position = .ok (layout.kept e) := by
  -- a layout that leaves something out takes the element for what it keeps of it
  have hkept : layout.kept ((sharedAt payload (position + layout.shared)).2 e.name
      (payload.wordAt position)
      (MinPrecision.ofCode (payload.wordAt (position + layout.shared + 24)))) = layout.kept e := by
    simp only [sharedAt, h.semanticIndex, h.systemValue, h.componentType, h.register, h.mask,
      h.accessMask, hcanonical.systemValue, hcanonical.componentType]
    cases layout with
    | basic => rfl
    | stream => rw [h.stream (by decide)]; rfl
    | streamPrecision =>
      rw [h.stream (by decide), h.minPrecision rfl, MinPrecision.ofCode_code]
  unfold elementAt
  refine bind_eq_ok_iff.2 ⟨_, (fieldsAt_eq_ok_iff (readsRecord_elementFields layout)).2
    ⟨h.room, rfl⟩, ?_⟩
  refine bind_eq_ok_iff.2 ⟨e.name, stringAt_eq_ok_iff.2 h.name, ?_⟩
  exact congrArg Except.ok hkept

/-- Whatever payload holds elements, decoding finds what its layout keeps of them. -/
theorem decode_of_encodes {tag : Tag} {layout : Layout} (htag : tag ∈ layout.tags)
    {elements : List SignatureElement} {payload : Bytes} (h : Encodes layout elements payload)
    (hcanonical : ∀ e ∈ elements, Canonical e) :
    decode tag payload = .ok ⟨elements.map layout.kept⟩ := by
  have helements : repeated (fun index => elementAt payload layout
      ((payload.wordAt 4).toNat + index * layout.recordBytes)) 0 (payload.wordAt 0).toNat =
      .ok (elements.map layout.kept) := by
    refine repeated_eq_ok_iff.2 ⟨by rw [List.length_map, h.count], ?_⟩
    intro index e he
    rw [List.getElem?_map, Option.map_eq_some_iff] at he
    obtain ⟨e', he', rfl⟩ := he
    rw [Nat.zero_add]
    exact elementAt_of_written (h.written index e' he')
      (hcanonical e' (List.mem_of_getElem? he'))
  unfold decode
  rw [Layout.ofTag?_of_mem htag]
  refine bind_eq_ok_iff.2 ⟨_, (fieldsAt_eq_ok_iff readsRecord_head).2 ⟨h.room, rfl⟩, ?_⟩
  exact bind_eq_ok_iff.2 ⟨_, helements, rfl⟩

/-! ### Writing

Records have one size for each layout, so the positions of all names are known before the first
record is written. -/

/-- The record of an element whose name stands at a position. -/
def record (layout : Layout) (name : Nat) (e : SignatureElement) : Bytes :=
  (if layout = .basic then #[] else Bytes.ofWord e.stream) ++
    (Bytes.ofWord (UInt32.ofNat name) ++ (Bytes.ofWord e.semanticIndex ++
    (Bytes.ofWord e.systemValue.code ++ (Bytes.ofWord e.componentType.code ++
    (Bytes.ofWord e.register ++ (#[e.mask] ++ (#[e.accessMask] ++ (Bytes.ofHalf 0 ++
    (if layout = .streamPrecision then Bytes.ofWord e.minPrecision.code else #[])))))))))

/-- A name, with the zero byte that ends it. -/
def nameBytes (e : SignatureElement) : Bytes := Utf8.encode e.name ++ #[0]

/-- The names of elements, one behind the other. -/
def names : List SignatureElement → Bytes
  | [] => #[]
  | e :: elements => nameBytes e ++ names elements

/-- The records of elements whose names stand one behind the other from a position on. -/
def records (layout : Layout) (name : Nat) : List SignatureElement → Bytes
  | [] => #[]
  | e :: elements => record layout name e ++ records layout (name + (nameBytes e).size) elements

/-- The position of the table of names of a number of elements. -/
def namesPosition (layout : Layout) (count : Nat) : Nat := 8 + count * layout.recordBytes

/-- A payload that holds elements: the records stand behind the head, and the names behind the
records. -/
def encode (layout : Layout) (elements : List SignatureElement) : Bytes :=
  Bytes.ofWord (UInt32.ofNat elements.length) ++ (Bytes.ofWord 8 ++
    (records layout (namesPosition layout elements.length) elements ++ names elements))

/-- The positions of all names are words. -/
def Fits (layout : Layout) (elements : List SignatureElement) : Prop :=
  ∀ index < elements.length,
    namesPosition layout elements.length + (names (elements.take index)).size < wordLimit

/-- The size of a record depends on its layout only. -/
theorem size_record (layout : Layout) (name : Nat) (e : SignatureElement) :
    (record layout name e).size = layout.recordBytes := by
  simp only [record, Array.size_append, Bytes.size_ofWord, Bytes.size_ofHalf]
  cases layout <;> rfl

/-- Records of one size stand at equal distances. -/
theorem size_records (layout : Layout) (name : Nat) (elements : List SignatureElement) :
    (records layout name elements).size = elements.length * layout.recordBytes := by
  induction elements generalizing name with
  | nil => rw [List.length_nil, Nat.zero_mul]; rfl
  | cons e elements ih =>
    rw [records, Array.size_append, size_record, ih, List.length_cons, Nat.succ_mul, Nat.add_comm]

/-- A record holds its element if its name stands where the record says. -/
theorem written_of_pieceAt {layout : Layout} {payload : Bytes} {position name : Nat}
    {e : SignatureElement} (h : payload.PieceAt position (record layout name e))
    (hname : payload.PieceAt name (nameBytes e)) (hfits : name < wordLimit)
    (hfree : NulFree e.name) : Written layout payload position e := by
  have hroom := h.le (by rw [size_record]; cases layout <;> decide)
  rw [size_record] at hroom
  have htext : TextAt payload (UInt32.ofNat name).toNat e.name := by
    rw [UInt32.toNat_ofNat_of_lt' hfits]
    exact .of_pieceAt hfree hname
  simp only [record, Bytes.pieceAt_append_iff] at h
  obtain ⟨hstream, hposition, hindex, hvalue, htype, hregister, hmask, haccess, -, hprecision⟩ := h
  have hshared : (if layout = .basic then #[] else Bytes.ofWord e.stream).size = layout.shared := by
    cases layout <;> rfl
  simp only [hshared, Bytes.size_ofWord, Nat.add_assoc] at *
  refine ⟨hroom, fun hlayout => ?_, ?_, ?_, ?_, ?_, ?_, ?_, ?_, fun hlayout => ?_⟩
  · rw [if_neg hlayout] at hstream
    exact hstream.wordAt_eq
  · rw [hposition.wordAt_eq]
    exact htext
  · exact hindex.wordAt_eq
  · exact hvalue.wordAt_eq
  · exact htype.wordAt_eq
  · exact hregister.wordAt_eq
  · exact hmask.byteAt_eq
  · exact haccess.byteAt_eq
  · rw [if_pos hlayout] at hprecision
    exact hprecision.wordAt_eq

/-- Records that stand one behind the other hold their elements if the names do so too. -/
theorem written_of_records {layout : Layout} {payload : Bytes}
    {elements : List SignatureElement} {first name : Nat}
    (hrecords : payload.PieceAt first (records layout name elements))
    (hnames : payload.PieceAt name (names elements))
    (hfits : ∀ index < elements.length, name + (names (elements.take index)).size < wordLimit)
    (hfree : ∀ e ∈ elements, NulFree e.name) {index : Nat} {e : SignatureElement}
    (he : elements[index]? = some e) :
    Written layout payload (first + index * layout.recordBytes) e := by
  -- the names move on with the records, so both positions change in the induction
  induction elements generalizing first name index with
  | nil => cases he
  | cons e' elements ih =>
    obtain ⟨hrecord, hrecords⟩ := Bytes.pieceAt_append_iff.1 hrecords
    obtain ⟨hname, hnames⟩ := Bytes.pieceAt_append_iff.1 hnames
    rw [size_record] at hrecords
    cases index with
    | zero =>
      cases he
      rw [Nat.zero_mul, Nat.add_zero]
      exact written_of_pieceAt hrecord hname (hfits 0 (Nat.zero_lt_succ _))
        (hfree _ List.mem_cons_self)
    | succ index =>
      rw [Nat.succ_mul, Nat.add_comm (index * layout.recordBytes), ← Nat.add_assoc]
      refine ih hrecords hnames ?_ (fun e he => hfree e (List.mem_cons_of_mem _ he)) he
      intro i hi
      have h := hfits (i + 1) (Nat.succ_lt_succ hi)
      rwa [List.take_succ_cons, names, Array.size_append, ← Nat.add_assoc] at h

/-- A payload that was written holds the elements. -/
theorem encodes_encode {layout : Layout} {elements : List SignatureElement}
    (hfits : Fits layout elements) (hfree : ∀ e ∈ elements, NulFree e.name) :
    Encodes layout elements (encode layout elements) := by
  have hpayload := Bytes.pieceAt_self (encode layout elements)
  obtain ⟨hcount, hpayload⟩ := Bytes.pieceAt_append_iff.1 hpayload
  obtain ⟨hposition, hpayload⟩ := Bytes.pieceAt_append_iff.1 hpayload
  obtain ⟨hrecords, hnames⟩ := Bytes.pieceAt_append_iff.1 hpayload
  rw [size_records] at hnames
  have hlength : elements.length < wordLimit := by
    -- the table of names begins behind all records, so there are fewer elements than positions
    rcases Nat.eq_zero_or_pos elements.length with hzero | hpos
    · rw [hzero]
      decide
    · have hfirst := hfits 0 hpos
      have hle : elements.length * 1 ≤ elements.length * layout.recordBytes :=
        Nat.mul_le_mul_left _ (by cases layout <;> decide)
      unfold namesPosition at hfirst
      omega
  refine ⟨hposition.le (by decide), ?_, ?_⟩
  · rw [hcount.wordAt_eq, UInt32.toNat_ofNat_of_lt' hlength]
  · intro index e he
    have hfirst : (encode layout elements).wordAt 4 = 8 := hposition.wordAt_eq
    rw [hfirst]
    exact written_of_records hrecords hnames hfits hfree he

/-- **Decoding undoes writing.** Elements without zeros in their names and with canonical codes are
written as a payload that holds them. In every layout that has room for all of them they are found
again, in that payload and in every other one that holds them, wherever records and names stand
there. Two payloads that hold them in two layouts are decoded to the same shared fields. -/
theorem written_signature_decodes {elements : List SignatureElement}
    (hcanonical : ∀ e ∈ elements, Canonical e) (hfree : ∀ e ∈ elements, NulFree e.name) :
    (∀ layout : Layout, Fits layout elements →
      Encodes layout elements (encode layout elements) ∧
        ((∀ e ∈ elements, layout.kept e = e) →
          ∀ tag ∈ layout.tags, decode tag (encode layout elements) = .ok ⟨elements⟩)) ∧
    (∀ layout : Layout, (∀ e ∈ elements, layout.kept e = e) →
      ∀ payload, Encodes layout elements payload →
        ∀ tag ∈ layout.tags, decode tag payload = .ok ⟨elements⟩) ∧
    ∀ (layout layout' : Layout) (payload payload' : Bytes), Encodes layout elements payload →
      Encodes layout' elements payload' → ∀ tag ∈ layout.tags, ∀ tag' ∈ layout'.tags,
        ∃ s s', decode tag payload = .ok s ∧ decode tag' payload' = .ok s' ∧
          s.elements.map Layout.basic.kept = s'.elements.map Layout.basic.kept := by
  have hdecode (layout : Layout) (hkept : ∀ e ∈ elements, layout.kept e = e) (payload : Bytes)
      (h : Encodes layout elements payload) (tag : Tag) (htag : tag ∈ layout.tags) :
      decode tag payload = .ok ⟨elements⟩ := by
    rw [decode_of_encodes htag h hcanonical, List.map_congr_left hkept, List.map_id']
  -- what has room for everything gives back the elements themselves
  refine ⟨?_, hdecode, ?_⟩
  · intro layout hfits
    have hencodes := encodes_encode hfits hfree
    exact ⟨hencodes, fun hkept => hdecode layout hkept _ hencodes⟩
  · intro layout layout' payload payload' h h' tag htag tag' htag'
    refine ⟨_, _, decode_of_encodes htag h hcanonical, decode_of_encodes htag' h' hcanonical, ?_⟩
    simp only [List.map_map, Function.comp_def, Layout.basic_kept_kept]

/-- A position and a texture coordinate that share nothing. -/
def positionAndCoordinate : List SignatureElement :=
  [⟨"SV_Position", 0, .position, .float32, 0, 15, 15, 0, .full⟩,
    ⟨"TEXCOORD", 1, .undefined, .float32, 1, 3, 3, 0, .full⟩]

/-- Two elements that were written are read again, in the smallest layout and in the largest. -/
theorem positionAndCoordinate_decodes :
    decode (.ascii 'I' 'S' 'G' 'N') (encode .basic positionAndCoordinate) =
        .ok ⟨positionAndCoordinate⟩ ∧
      decode (.ascii 'O' 'S' 'G' '1') (encode .streamPrecision positionAndCoordinate) =
        .ok ⟨positionAndCoordinate⟩ := by
  have hcanonical : ∀ e ∈ positionAndCoordinate, Canonical e := by
    intro e he
    simp only [positionAndCoordinate, List.mem_cons, List.not_mem_nil, or_false] at he
    rcases he with rfl | rfl <;> exact ⟨rfl, rfl⟩
  have hfree : ∀ e ∈ positionAndCoordinate, NulFree e.name := by
    unfold NulFree positionAndCoordinate
    simp
  have hfits (layout : Layout) : Fits layout positionAndCoordinate := by
    unfold Fits
    cases layout <;> decide +kernel
  obtain ⟨hwritten, -⟩ := written_signature_decodes hcanonical hfree
  exact ⟨(hwritten .basic (hfits _)).2 (by decide +kernel) _ (by decide),
    (hwritten .streamPrecision (hfits _)).2 (by decide +kernel) _ (by decide)⟩

end Signature
end ShaderBytecode
