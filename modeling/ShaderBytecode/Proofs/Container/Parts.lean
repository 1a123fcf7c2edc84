import Mathlib.Data.List.Forall2
import ShaderBytecode.Glsl.Emit
import ShaderBytecode.Proofs.Bytes.Records
import ShaderBytecode.Proofs.Container.Rereading
import ShaderBytecode.Proofs.Container.RoundTrip

/-!
# Which chunks count

A container keeps what its chunks were decoded to, one part for each kind of chunk. Of several
chunks of a kind the last one counts, in the order of the table,

    Part.lastDecoded_lastOf : LastDecoded chunks part.kind.tags part.decodeChunk
      (lastOf payloads part.of?)

and the order is all that the table adds: if no kind occurs twice, a container whose table lists the
same chunks in another order has the same parts, and so it is the same shader.

Each kind of part is a `Part`: how its chunks are decoded, what payload this makes, and how the part
is taken out of payloads again. What is shown about the last chunk is shown once for all of them.
-/

namespace ShaderBytecode

/-! ### Kinds of chunks

The tags of a kind are listed here a second time, by kind instead of by tag. The two lists agree. -/

namespace ChunkKind

/-- The tags of a kind that is decoded. -/
def tags : ChunkKind → List Tag
  | resources => [.ascii 'R' 'D' 'E' 'F']
  | program => [.ascii 'S' 'H' 'E' 'X', .ascii 'S' 'H' 'D' 'R']
  | inputSignature => [.ascii 'I' 'S' 'G' 'N', .ascii 'I' 'S' 'G' '1']
  | outputSignature =>
    [.ascii 'O' 'S' 'G' 'N', .ascii 'O' 'S' 'G' '1', .ascii 'O' 'S' 'G' '5']
  | patchConstantSignature => [.ascii 'P' 'C' 'S' 'G', .ascii 'P' 'S' 'G' '1']
  | uninterpreted | unknown => []

/-- The kinds that are decoded. -/
def decoded : List ChunkKind :=
  [resources, program, inputSignature, outputSignature, patchConstantSignature]

/-- A tag has a kind if it is among the tags of the kind. -/
theorem ofTag_eq_iff {kind : ChunkKind} (hkind : kind ∈ decoded) {tag : Tag} :
    ofTag tag = kind ↔ tag ∈ kind.tags := by
  by_cases htag : tag ∈ decodedTags.map Prod.fst
  · have hdecoded : ∀ tag ∈ decodedTags.map Prod.fst, ∀ kind ∈ decoded,
        ofTag tag = kind ↔ tag ∈ kind.tags := by
      decide
    exact hdecoded tag htag kind hkind
  · -- any other tag stands for no kind that is decoded
    have hlookup : decodedTags.lookup tag = none := by
      rw [List.lookup_eq_none_iff]
      intro p hp
      rw [bne_iff_ne]
      rintro rfl
      exact htag (List.mem_map_of_mem hp)
    have htags : ∀ kind ∈ decoded, ∀ tag ∈ kind.tags, tag ∈ decodedTags.map Prod.fst := by
      decide
    constructor
    · intro hof
      unfold ofTag at hof
      rw [hlookup] at hof
      dsimp only at hof
      split at hof
      · rw [← hof] at hkind
        exact absurd hkind (by decide)
      · rw [← hof] at hkind
        exact absurd hkind (by decide)
    · intro hmem
      exact absurd (htags kind hkind tag hmem) htag

end ChunkKind

/-- The kind of a payload that was decoded. -/
def Payload.kind? : Payload → Option ChunkKind
  | resources _ => some .resources
  | program _ => some .program
  | inputSignature _ => some .inputSignature
  | outputSignature _ => some .outputSignature
  | patchConstantSignature _ => some .patchConstantSignature
  | raw => none

/-- A payload has the kind of its chunk. -/
theorem ofTag_of_payload {k : Chunk} {p : Payload} {kind : ChunkKind} (hp : k.payload = .ok p)
    (hkind : p.kind? = some kind) : ChunkKind.ofTag k.tag = kind := by
  unfold Chunk.payload at hp
  split at hp
  · next h => obtain ⟨d, -, rfl⟩ := map_eq_ok_iff.1 hp; cases hkind; exact h
  · next h => obtain ⟨q, -, rfl⟩ := map_eq_ok_iff.1 hp; cases hkind; exact h
  · next h => obtain ⟨s, -, rfl⟩ := map_eq_ok_iff.1 hp; cases hkind; exact h
  · next h => obtain ⟨s, -, rfl⟩ := map_eq_ok_iff.1 hp; cases hkind; exact h
  · next h => obtain ⟨s, -, rfl⟩ := map_eq_ok_iff.1 hp; cases hkind; exact h
  · cases hp; cases hkind
  · cases hp; cases hkind

namespace Container

/-! ### The last chunk of a kind

What a container keeps is found from the front by looking at all payloads, and what the last chunk
was decoded to is told from the back. The two meet in an induction on the chunks. -/

/-- What the last chunk with one of some tags is decoded to, or nothing if there is no such
chunk. -/
def LastDecoded (chunks : List Chunk) (tags : List Tag)
    (decodeChunk : Chunk → Except DecodeError α) : Option α → Prop
  | none => ∀ k ∈ chunks, k.tag ∉ tags
  | some a => ∃ before k after, chunks = before ++ k :: after ∧ k.tag ∈ tags ∧
      (∀ k' ∈ after, k'.tag ∉ tags) ∧ decodeChunk k = .ok a

/-- The first chunk with a tag, or nothing if there is no such chunk. -/
def FirstTagged (chunks : List Chunk) (tag : Tag) : Option Chunk → Prop
  | none => ∀ k ∈ chunks, k.tag ≠ tag
  | some k => ∃ before after, chunks = before ++ k :: after ∧ k.tag = tag ∧
      ∀ k' ∈ before, k'.tag ≠ tag

/-- A lookup by tag finds the first chunk, and not the last. -/
theorem firstTagged_chunk? (c : Container) (tag : Tag) :
    FirstTagged c.chunks tag (c.chunk? tag) := by
  unfold chunk?
  cases hfind : c.chunks.find? (·.tag == tag) with
  | none =>
    intro k hk
    simpa using List.find?_eq_none.1 hfind k hk
  | some k =>
    obtain ⟨htag, before, after, hchunks, hbefore⟩ := List.find?_eq_some_iff_append.1 hfind
    exact ⟨before, after, hchunks, by simpa using htag, fun k' hk' => by simpa using hbefore k' hk'⟩

/-- The first payload counts only if none behind it does. -/
theorem lastOf_cons (p : Payload) (payloads : List Payload) (part : Payload → Option α) :
    lastOf (p :: payloads) part = (lastOf payloads part).or (part p) := by
  unfold lastOf
  cases h : part p with
  | none => rw [List.filterMap_cons_none h, Option.or_none]
  | some a =>
    rw [List.filterMap_cons_some h, List.getLast?_cons]
    cases (payloads.filterMap part).getLast? <;> rfl

/-- The payloads of chunks that can all be decoded. -/
theorem mapM_payload_eq_ok_iff {chunks : List Chunk} {payloads : List Payload} :
    chunks.mapM payload = .ok payloads ↔
      List.Forall₂ (fun k p => k.payload = .ok p) chunks payloads := by
  induction chunks generalizing payloads with
  | nil =>
    rw [List.forall₂_nil_left_iff]
    constructor
    · intro h
      cases h
      rfl
    · rintro rfl
      rfl
  | cons k chunks ih =>
    -- the first chunk is decoded, and then the others
    simp only [List.mapM_cons, bind_eq_ok_iff, ih, payload, mapError_eq_ok_iff,
      List.forall₂_cons_left_iff]
    constructor
    · rintro ⟨p, hp, ps, hps, h⟩
      cases h
      exact ⟨p, ps, hp, hps, rfl⟩
    · rintro ⟨p, ps, hp, hps, rfl⟩
      exact ⟨p, hp, ps, hps, rfl⟩

/-- A kind of part: how chunks of one kind are decoded, the payloads that this makes, and what is
taken out of payloads. Each kind has its own payloads, so nothing else is taken out. -/
structure Part (α : Type) where
  kind : ChunkKind
  decodeChunk : Chunk → Except DecodeError α
  wrap : α → Payload
  of? : Payload → Option α
  mem_decoded : kind ∈ ChunkKind.decoded := by decide
  payload_eq : ∀ k, ChunkKind.ofTag k.tag = kind → k.payload = (decodeChunk k).map wrap := by
    intro k hk
    rw [Chunk.payload, hk]
  of?_wrap : ∀ a, of? (wrap a) = some a := by
    intro a
    rfl
  kind?_of : ∀ p a, of? p = some a → p.kind? = some kind := by
    intro p a hp
    cases p <;> first | rfl | cases hp

namespace Part

def resources : Part ResourceDefinitions where
  kind := .resources
  decodeChunk k := ResourceDefinitions.decode k.data
  wrap := .resources
  of? p := match p with
    | .resources d => some d
    | _ => none

def program : Part Program where
  kind := .program
  decodeChunk k := Program.decode k.data
  wrap := .program
  of? p := match p with
    | .program q => some q
    | _ => none

def inputSignature : Part Signature where
  kind := .inputSignature
  decodeChunk k := Signature.decode k.tag k.data
  wrap := .inputSignature
  of? p := match p with
    | .inputSignature s => some s
    | _ => none

def outputSignature : Part Signature where
  kind := .outputSignature
  decodeChunk k := Signature.decode k.tag k.data
  wrap := .outputSignature
  of? p := match p with
    | .outputSignature s => some s
    | _ => none

def patchConstantSignature : Part Signature where
  kind := .patchConstantSignature
  decodeChunk k := Signature.decode k.tag k.data
  wrap := .patchConstantSignature
  of? p := match p with
    | .patchConstantSignature s => some s
    | _ => none

/-- The part of a kind is what the last chunk of the kind is decoded to. -/
theorem lastDecoded_lastOf (part : Part α) {chunks : List Chunk} {payloads : List Payload}
    (h : List.Forall₂ (fun k p => k.payload = .ok p) chunks payloads) :
    LastDecoded chunks part.kind.tags part.decodeChunk (lastOf payloads part.of?) := by
  induction h with
  | nil => exact fun k hk => absurd hk List.not_mem_nil
  | @cons k p chunks payloads hp hrest ih =>
    rw [lastOf_cons]
    cases hlast : lastOf payloads part.of? with
    | some a => -- a later chunk of the kind counts, and `k` comes in front of it
      rw [hlast] at ih
      obtain ⟨before, k', after, rfl, htag, hafter, ha⟩ := ih
      exact ⟨k :: before, k', after, rfl, htag, hafter, ha⟩
    | none =>
      rw [hlast] at ih
      rw [Option.none_or]
      by_cases htag : k.tag ∈ part.kind.tags
      · rw [part.payload_eq k ((ChunkKind.ofTag_eq_iff part.mem_decoded).2 htag)] at hp
        obtain ⟨a, ha, rfl⟩ := map_eq_ok_iff.1 hp
        rw [part.of?_wrap]
        exact ⟨[], k, chunks, rfl, htag, ih, ha⟩
      · -- `k` has another tag, so nothing is taken out of what it was decoded to
        cases hk : part.of? p with
        | none => exact List.forall_mem_cons.2 ⟨htag, ih⟩
        | some a =>
          have hkind := ofTag_of_payload hp (part.kind?_of p a hk)
          exact absurd ((ChunkKind.ofTag_eq_iff part.mem_decoded).1 hkind) htag

end Part

/-- The parts of a container, each decoded from the last chunk of its kind. -/
structure PartsDecoded (c : Container) : Prop where
  resources : LastDecoded c.chunks ChunkKind.resources.tags
    (fun k => ResourceDefinitions.decode k.data) c.resources
  program : LastDecoded c.chunks ChunkKind.program.tags (fun k => Program.decode k.data) c.program
  inputSignature : LastDecoded c.chunks ChunkKind.inputSignature.tags
    (fun k => Signature.decode k.tag k.data) c.inputSignature
  outputSignature : LastDecoded c.chunks ChunkKind.outputSignature.tags
    (fun k => Signature.decode k.tag k.data) c.outputSignature
  patchConstantSignature : LastDecoded c.chunks ChunkKind.patchConstantSignature.tags
    (fun k => Signature.decode k.tag k.data) c.patchConstantSignature

/-- Each part of a container comes from the last chunk of its kind. -/
theorem partsDecoded_of_decode {data : Bytes} {c : Container} (h : decode data = .ok c) :
    PartsDecoded c := by
  obtain ⟨-, -, payloads, hpayloads, rfl⟩ := decode_eq_ok_iff.1 h
  have hpayloads := mapM_payload_eq_ok_iff.1 hpayloads
  exact {
    resources := Part.resources.lastDecoded_lastOf hpayloads
    program := Part.program.lastDecoded_lastOf hpayloads
    inputSignature := Part.inputSignature.lastDecoded_lastOf hpayloads
    outputSignature := Part.outputSignature.lastDecoded_lastOf hpayloads
    patchConstantSignature := Part.patchConstantSignature.lastDecoded_lastOf hpayloads }

/-! ### Chunks in another order

A table that lists the same chunks in another order changes nothing but the table. The chunks stay
where they are, since no chunk of a framed container reaches into the table. What is left to show is
that a part does not depend on the order, if only one chunk can give it. -/

/-- A part that is there comes from a chunk of its kind. -/
theorem LastDecoded.exists_mem {chunks : List Chunk} {tags : List Tag}
    {decodeChunk : Chunk → Except DecodeError α} {a : α}
    (h : LastDecoded chunks tags decodeChunk (some a)) :
    ∃ k ∈ chunks, k.tag ∈ tags ∧ decodeChunk k = .ok a := by
  obtain ⟨before, k, after, rfl, htag, -, ha⟩ := h
  exact ⟨k, List.mem_append_right _ List.mem_cons_self, htag, ha⟩

/-- There is one element with a property if there is at most one. -/
theorem eq_of_countP_le_one {l : List α} {p : α → Bool} (h : l.countP p ≤ 1) {a b : α}
    (ha : a ∈ l) (hpa : p a) (hb : b ∈ l) (hpb : p b) : a = b := by
  rw [List.countP_eq_length_filter] at h
  have ha : a ∈ l.filter p := List.mem_filter.2 ⟨ha, hpa⟩
  have hb : b ∈ l.filter p := List.mem_filter.2 ⟨hb, hpb⟩
  match hfilter : l.filter p, h with
  | [], _ =>
    rw [hfilter] at ha
    cases ha
  | [x], _ =>
    rw [hfilter] at ha hb
    exact (List.mem_singleton.1 ha).trans (List.mem_singleton.1 hb).symm

/-- The order of chunks does not matter for a kind that occurs once at most. -/
theorem LastDecoded.eq_of_perm {chunks chunks' : List Chunk} {tags : List Tag}
    {decodeChunk : Chunk → Except DecodeError α} {part part' : Option α}
    (hperm : chunks'.Perm chunks) (hone : chunks.countP (fun k => k.tag ∈ tags) ≤ 1)
    (h : LastDecoded chunks tags decodeChunk part)
    (h' : LastDecoded chunks' tags decodeChunk part') : part' = part := by
  cases part with
  -- nothing was decoded, so no chunk has a tag of the kind
  | none =>
    cases part' with
    | none => rfl
    | some a' =>
      obtain ⟨k', hk', htag', -⟩ := h'.exists_mem
      exact absurd htag' (h k' (hperm.mem_iff.1 hk'))
  | some a =>
    obtain ⟨k, hk, htag, ha⟩ := h.exists_mem
    cases part' with
    | none => exact absurd htag (h' k (hperm.mem_iff.2 hk))
    | some a' =>
      -- both were decoded from a chunk of the kind, of which there is at most one
      obtain ⟨k', hk', htag', ha'⟩ := h'.exists_mem
      obtain rfl : k = k' := eq_of_countP_le_one hone hk (decide_eq_true htag)
        (hperm.mem_iff.1 hk') (decide_eq_true htag')
      rw [Except.ok.inj (ha'.symm.trans ha)]

/-- The same bytes, but for the order of the entries of the chunk table. -/
structure TablePermuted (data data' : Bytes) : Prop where
  size_eq : data'.size = data.size
  getElem?_eq : ∀ i, i < Header.byteCount ∨ tableEnd (announcedCount data) ≤ i →
    data'[i]? = data[i]?
  perm : (listedOffsets data').Perm (listedOffsets data)

section

variable {data data' : Bytes} (h : TablePermuted data data')

include h

/-- Outside of the table the two buffers have the same pieces. -/
theorem TablePermuted.extract_eq {first last : Nat}
    (hrange : last ≤ Header.byteCount ∨ tableEnd (announcedCount data) ≤ first) :
    data'.extract first last = data.extract first last := by
  apply Array.ext_getElem?
  intro i
  rw [Array.getElem?_extract, Array.getElem?_extract, h.size_eq]
  split
  · exact h.getElem?_eq _ (by omega)
  · rfl

/-- The header is in front of the table. -/
theorem TablePermuted.header_eq : Header.ofBytes data' = Header.ofBytes data := by
  rw [← Header.ofBytes_extract data' (Nat.le_refl _), h.extract_eq (.inl (Nat.le_refl _)),
    Header.ofBytes_extract data (Nat.le_refl _)]

/-- The number of chunks is in the header. -/
theorem TablePermuted.announcedCount_eq : announcedCount data' = announcedCount data := by
  rw [announcedCount, h.header_eq]
  rfl

/-- The size is in the header. -/
theorem TablePermuted.announcedSize_eq : announcedSize data' = announcedSize data := by
  rw [announcedSize, h.header_eq]
  rfl

/-- A chunk behind the table ends where it ended. -/
theorem TablePermuted.chunkEnd_eq {o : Nat} (ho : tableEnd (announcedCount data) ≤ o) :
    chunkEnd data' o = chunkEnd data o := by
  rw [chunkEnd, chunkEnd, Bytes.wordAt, Bytes.wordAt, h.extract_eq (.inr (by omega))]

/-- A chunk behind the table is the same in both buffers. -/
theorem TablePermuted.chunkPiece_eq {o : UInt32}
    (ho : tableEnd (announcedCount data) ≤ o.toNat) : chunkPiece data' o = chunkPiece data o := by
  rw [chunkPiece, chunkPiece, h.chunkEnd_eq ho, h.extract_eq (.inr ho),
    h.extract_eq (.inr (by omega))]

/-- Being framed is said about each listed chunk, in whatever order they are listed. -/
theorem TablePermuted.framed (hframed : Framed data) : Framed data' := by
  have htable (o : UInt32) (ho : o ∈ listedOffsets data') :
      -- the offsets are the same, in another order
      tableEnd (announcedCount data) ≤ o.toNat :=
    hframed.tableEnd_le_offset o (h.perm.mem_iff.1 ho)
  constructor
  · rw [h.size_eq]
    exact hframed.header_le
  · rw [h.announcedSize_eq, h.size_eq]
    exact hframed.size_le
  · rw [h.announcedCount_eq, h.announcedSize_eq]
    exact hframed.tableEnd_le
  · rw [h.announcedCount_eq]
    exact htable
  · intro o ho
    rw [h.announcedSize_eq, h.chunkEnd_eq (htable o ho)]
    exact hframed.chunkEnd_le o (h.perm.mem_iff.1 ho)

/-- The table lists the same chunks. -/
theorem TablePermuted.perm_listedChunks (hframed : Framed data) :
    (listedChunks data').Perm (listedChunks data) := by
  rw [listedChunks_eq hframed, listedChunks_eq (h.framed hframed)]
  have hpieces : (listedOffsets data').map (chunkPiece data') =
      (listedOffsets data').map (chunkPiece data) :=
    List.map_congr_left fun o ho =>
      h.chunkPiece_eq (hframed.tableEnd_le_offset o (h.perm.mem_iff.1 ho))
  rw [hpieces]
  exact h.perm.map _

/-- A container whose table lists the same chunks can be decoded too. -/
theorem TablePermuted.exists_decode {c : Container} (hc : decode data = .ok c) :
    ∃ c', decode data' = .ok c' ∧ c'.chunks.Perm c.chunks := by
  obtain ⟨hmagic, hframed, payloads, hpayloads, rfl⟩ := decode_eq_ok_iff.1 hc
  have hall := List.forall₂_iff_get.1 (mapM_payload_eq_ok_iff.1 hpayloads)
  have hdecoded (k : Chunk) (hk : k ∈ listedChunks data') : ∃ p, k.payload = .ok p := by
    obtain ⟨i, hi, rfl⟩ := List.getElem_of_mem ((h.perm_listedChunks hframed).mem_iff.1 hk)
    exact ⟨_, hall.2 i hi (hall.1 ▸ hi)⟩
  obtain ⟨payloads', hpayloads'⟩ := mapM_payload_eq_ok hdecoded
  refine ⟨_, decode_eq_ok_iff.2 ⟨?_, h.framed hframed, payloads', hpayloads', rfl⟩,
    h.perm_listedChunks hframed⟩
  rw [h.header_eq]
  exact hmagic

end

/-- Two containers have the same decoded parts. -/
structure SameParts (c c' : Container) : Prop where
  resources : c'.resources = c.resources
  program : c'.program = c.program
  inputSignature : c'.inputSignature = c.inputSignature
  outputSignature : c'.outputSignature = c.outputSignature
  patchConstantSignature : c'.patchConstantSignature = c.patchConstantSignature

/-- Containers with the same chunks have the same parts, if no kind occurs twice. -/
theorem PartsDecoded.sameParts {c c' : Container} (h : PartsDecoded c) (h' : PartsDecoded c')
    (hperm : c'.chunks.Perm c.chunks)
    (hone : ∀ kind ∈ ChunkKind.decoded, c.chunks.countP (fun k => k.tag ∈ kind.tags) ≤ 1) :
    SameParts c c' where
  resources := h.resources.eq_of_perm hperm (hone _ (by decide)) h'.resources
  program := h.program.eq_of_perm hperm (hone _ (by decide)) h'.program
  inputSignature := h.inputSignature.eq_of_perm hperm (hone _ (by decide)) h'.inputSignature
  outputSignature := h.outputSignature.eq_of_perm hperm (hone _ (by decide)) h'.outputSignature
  patchConstantSignature :=
    h.patchConstantSignature.eq_of_perm hperm (hone _ (by decide)) h'.patchConstantSignature

/-- The shader of a container is made from its parts. -/
theorem SameParts.emit?_eq {c c' : Container} (h : SameParts c c') (options : Glsl.Options) :
    Glsl.emit? options c' = Glsl.emit? options c := by
  obtain ⟨hresources, hprogram, hinput, houtput, -⟩ := h
  obtain ⟨header, chunks, resources, inputs, outputs, patch, program⟩ := c
  obtain ⟨header', chunks', resources', inputs', outputs', patch', program'⟩ := c'
  dsimp only at hresources hprogram hinput houtput
  subst hresources hprogram hinput houtput
  rfl

/-- **The last chunk of a kind counts.** The chunks of a container are those that its table lists;
each part is decoded from the last chunk of its kind, while a chunk that is looked for by its tag is
the first with that tag. If no kind occurs twice, a table that lists the same chunks in another
order gives a container with the same parts and the same shader. -/
theorem last_chunk_decoded {data : Bytes} {c : Container} (h : decode data = .ok c) :
    c.chunks = listedChunks data ∧ PartsDecoded c ∧
      (∀ tag, FirstTagged c.chunks tag (c.chunk? tag)) ∧
      ((∀ kind ∈ ChunkKind.decoded, c.chunks.countP (fun k => k.tag ∈ kind.tags) ≤ 1) →
        ∀ data', TablePermuted data data' →
          ∃ c', decode data' = .ok c' ∧ c'.chunks.Perm c.chunks ∧ SameParts c c' ∧
            ∀ options, Glsl.emit? options c' = Glsl.emit? options c) := by
  have hparts := partsDecoded_of_decode h
  refine ⟨?_, hparts, firstTagged_chunk? c, ?_⟩
  · obtain ⟨-, -, payloads, -, rfl⟩ := decode_eq_ok_iff.1 h
    rfl
  · intro hone data' hpermuted
    obtain ⟨c', hc', hperm⟩ := hpermuted.exists_decode h
    have hsame := hparts.sameParts (partsDecoded_of_decode hc') hperm hone
    exact ⟨c', hc', hperm, hsame, hsame.emit?_eq⟩

/-- A container with an input and an output signature, neither with an element. -/
def twoSignatures : Bytes :=
  #[68, 88, 66, 67, 0, 0, 0, 0, 0, 0, 0, 0, 0, 0, 0, 0, 0, 0, 0, 0, 1, 0, 0, 0, 72, 0, 0, 0,
    2, 0, 0, 0, 40, 0, 0, 0, 56, 0, 0, 0,
    73, 83, 71, 78, 8, 0, 0, 0, 0, 0, 0, 0, 8, 0, 0, 0,
    79, 83, 71, 78, 8, 0, 0, 0, 0, 0, 0, 0, 8, 0, 0, 0]

/-- The same container with the output signature in front. -/
def outputFirst : Bytes := (twoSignatures.set! 32 56).set! 36 40

/-- Two signatures, listed in one order and in the other, are the same two signatures. -/
theorem last_chunk_decoded_twoSignatures :
    ∃ c c', decode twoSignatures = .ok c ∧ decode outputFirst = .ok c' ∧ SameParts c c' ∧
      c'.chunks.Perm c.chunks := by
  have haccepted : (decode twoSignatures).toOption.isSome = true := by decide +kernel
  -- the two containers differ in their tables only
  have hpermuted : TablePermuted twoSignatures outputFirst := by
    refine ⟨by decide, ?_, by decide +kernel⟩
    intro i hi
    by_cases hsize : i < 72
    · have hbytes : ∀ i < 72, i < 32 ∨ 40 ≤ i → outputFirst[i]? = twoSignatures[i]? := by
        decide +kernel
      exact hbytes i hsize hi
    · rw [Array.getElem?_eq_none (Nat.not_lt.1 hsize), Array.getElem?_eq_none (Nat.not_lt.1 hsize)]
  cases h : decode twoSignatures with
  | error e =>
    rw [h] at haccepted
    cases haccepted
  | ok c =>
    obtain ⟨hchunks, -, -, hpermute⟩ := last_chunk_decoded h
    have hone : ∀ kind ∈ ChunkKind.decoded,
        c.chunks.countP (fun k => k.tag ∈ kind.tags) ≤ 1 := by
      rw [hchunks]
      decide +kernel
    obtain ⟨c', hc', hperm, hsame, -⟩ := hpermute hone outputFirst hpermuted
    exact ⟨c, c', rfl, hc', hsame, hperm⟩

end Container
end ShaderBytecode
