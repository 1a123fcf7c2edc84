import ShaderBytecode.Container.Decode
import ShaderBytecode.Proofs.Program.Blameless

/-!
# Containers are decoded without a defect

What holds of programs holds of the other payloads too, and so of containers: where decoding fails,
the input is to blame.

There is nothing to be clever about here: every decoder is put together from reads and tests, and
each test that can fail gives a fault that blames the input. So each proof goes through its decoder
once, with one rule for every combinator (`Blameless.bind`, `BlamelessFrom.read_bind`,
`blamelessFrom_lift`), and ends at the tests. What had to be thought about is in the rules, and in
the operands of programs, where a position could be outside of its list.
-/

namespace ShaderBytecode

/-! ### Resource definitions

Types may be nested in each other, so for them the rules are not enough and an induction over the
levels that are left is needed. All other records are decoded once, from the outside in. -/

namespace ResourceDefinitions

open Decode

/-- Record sizes that are too small are refused by their number. -/
theorem blameless_ofAnnounced (a : AnnouncedSizes) : Blameless (RecordSizes.ofAnnounced a) := by
  have hcheck (size : UInt32) (least : Nat) : Blameless (if size.toNat < least then
      .error (DecodeError.unsupported .recordSize size.toNat) else .ok size.toNat) := by
    split
    · exact blameless_error Bool.false_ne_true
    · exact blameless_pure _
  exact (hcheck _ _).bind fun _ _ => (hcheck _ _).bind fun _ _ => (hcheck _ _).bind fun _ _ =>
    blameless_pure _

/-- More types than a payload may have are refused by their number. -/
theorem blameless_countType : BlamelessFrom countType := by
  refine (blamelessFrom_modify _).bind fun _ => blamelessFrom_get.bind fun count => ?_
  split
  · exact blamelessFrom_throw Bool.false_ne_true
  · exact blamelessFrom_pure _

/-- The class of a type is the only field of it that may be unknown. -/
theorem blameless_typeFields : BlamelessFrom typeFields := by
  refine .read_bind _ fun code => ?_
  refine (blamelessFrom_lift ?_).bind fun _ => ?_
  · unfold VariableClass.ofCode
    split
    · exact blameless_pure _
    · exact blameless_error Bool.false_ne_true
  · exact .read_bind _ fun _ => .read_bind _ fun _ => .read_bind _ fun _ => .read_bind _ fun _ =>
      .read_bind _ fun _ => .read_bind _ fun _ => blamelessFrom_pure _

/-- A name is looked up only where its position is not zero. -/
theorem blameless_typeName (payload : Bytes) (sizes : RecordSizes) (position : Nat) :
    Blameless (typeName payload sizes position) := by
  unfold typeName
  split
  · refine (blameless_fieldsAt (blamelessFrom_read _) _ _).bind fun name _ => ?_
    split
    · exact blameless_pure _
    · exact (blameless_stringAt _ _).bind fun _ _ => blameless_pure _
  · exact blameless_pure _

/-- A type is decoded one level down from the type that it is a member of. -/
theorem blameless_typeAt (payload : Bytes) (sizes : RecordSizes) (levels position : Nat) :
    BlamelessFrom (typeAt payload sizes levels position) := by
  induction levels generalizing position with
  | zero => exact blamelessFrom_throw Bool.false_ne_true
  | succ levels ih =>
    refine blameless_countType.bind fun _ => ?_
    refine (blamelessFrom_lift (blameless_fieldsAt blameless_typeFields _ _)).bind fun record => ?_
    refine (blamelessFrom_lift (blameless_typeName _ _ _)).bind fun _ => ?_
    refine (blamelessFrom_repeated (fun index => ?_) _ _).bind fun _ => blamelessFrom_pure _
    refine (blamelessFrom_lift (blameless_fieldsAt ?_ _ _)).bind fun _ => ?_
    · exact .read_bind _ fun _ => .read_bind _ fun _ => .read_bind _ fun _ => blamelessFrom_pure _
    · exact (blamelessFrom_lift (blameless_stringAt _ _)).bind fun _ =>
        (ih _).bind fun _ => blamelessFrom_pure _

/-- A record of six words, of which several kinds begin with. -/
theorem blameless_sixWords :
    BlamelessFrom (do return (← Cursor.u32, ← Cursor.u32, ← Cursor.u32, ← Cursor.u32,
      ← Cursor.u32, ← Cursor.u32) :
        Decode (UInt32 × UInt32 × UInt32 × UInt32 × UInt32 × UInt32)) :=
  .read_bind _ fun _ => .read_bind _ fun _ => .read_bind _ fun _ => .read_bind _ fun _ =>
    .read_bind _ fun _ => .read_bind _ fun _ => blamelessFrom_pure _

/-- A variable, with its type and its default value. -/
theorem blameless_variableAt (payload : Bytes) (sizes : RecordSizes) (position : Nat) :
    BlamelessFrom (variableAt payload sizes position) := by
  refine (blamelessFrom_lift (blameless_fieldsAt blameless_sixWords _ _)).bind fun record => ?_
  refine (blamelessFrom_lift (blameless_stringAt _ _)).bind fun _ => ?_
  refine (blameless_typeAt _ _ _ _).bind fun _ => ?_
  dsimp only
  split
  · exact (blamelessFrom_pure _).bind fun _ => blamelessFrom_pure _
  · exact ((blamelessFrom_lift (blameless_fieldsAt (blamelessFrom_read _) _ _)).map _).bind fun _ =>
      blamelessFrom_pure _

/-- A buffer, with its variables. -/
theorem blameless_bufferAt (payload : Bytes) (sizes : RecordSizes) (position : Nat) :
    BlamelessFrom (bufferAt payload sizes position) :=
  (blamelessFrom_lift (blameless_fieldsAt blameless_sixWords _ _)).bind fun _ =>
    (blamelessFrom_lift (blameless_stringAt _ _)).bind fun _ =>
    (blamelessFrom_repeated (fun _ => blameless_variableAt _ _ _) _ _).bind fun _ =>
    blamelessFrom_pure _

/-- A binding stands alone. -/
theorem blameless_bindingAt (payload : Bytes) (position : Nat) :
    Blameless (bindingAt payload position) := by
  refine (blameless_fieldsAt ?_ _ _).bind fun _ _ =>
    (blameless_stringAt _ _).bind fun _ _ => blameless_pure _
  exact .read_bind _ fun _ => .read_bind _ fun _ => .read_bind _ fun _ => .read_bind _ fun _ =>
    .read_bind _ fun _ => .read_bind _ fun _ => .read_bind _ fun _ => .read_bind _ fun _ =>
    blamelessFrom_pure _

/-- The sizes are announced or not, and both is in order. -/
theorem blameless_announcedSizes : BlamelessFrom announcedSizes := by
  refine blamelessFrom_get.bind fun c => ?_
  split
  · exact blamelessFrom_pure _
  · exact .read_bind _ fun _ => .read_bind _ fun _ => .read_bind _ fun _ => .read_bind _ fun _ =>
      .read_bind _ fun _ => .read_bind _ fun _ => .read_bind _ fun _ => .read_bind _ fun _ =>
      blamelessFrom_pure _

/-- The stage is the only field in front of the records that may be unknown. -/
theorem blameless_preamble : BlamelessFrom preamble := by
  refine .read_bind _ fun _ => .read_bind _ fun _ => .read_bind _ fun _ => .read_bind _ fun _ =>
    .read_bind _ fun _ => .read_bind _ fun _ => .read_bind _ fun code => ?_
  refine (blamelessFrom_lift ?_).bind fun _ => ?_
  · unfold Stage.ofResourceCode
    split
    · exact blameless_pure _
    · exact blameless_error Bool.false_ne_true
  · refine .read_bind _ fun _ => .read_bind _ fun _ => ?_
    dsimp only
    split
    · exact blameless_announcedSizes.bind fun _ => blamelessFrom_pure _
    · exact (blamelessFrom_pure _).bind fun _ => blamelessFrom_pure _

/-- A payload of resource definitions is decoded without a defect. -/
theorem blameless_decode (payload : Bytes) : Blameless (decode payload) := by
  refine (blameless_fieldsAt blameless_preamble _ _).bind fun p _ => ?_
  refine Blameless.bind ?_ fun sizes _ => ?_
  · unfold Preamble.recordSizes
    split
    · exact blameless_pure _
    · exact blameless_ofAnnounced _
  have hbuffers : BlamelessFrom (repeated (fun index => bufferAt payload sizes
      (p.bufferPosition + index * bufferRecordBytes)) 0 p.bufferCount) :=
    blamelessFrom_repeated (fun _ => blameless_bufferAt _ _ _) _ _
  have hbindings : Blameless (repeated (fun index => bindingAt payload
      (p.bindingPosition + index * sizes.bindingBytes)) 0 p.bindingCount) :=
    blameless_repeated (fun _ => blameless_bindingAt _ _) _ _
  dsimp only
  -- the definitions have a name for what made them, or none
  split
  · exact (blameless_pure _).bind fun _ _ => (hbuffers 0).bind fun _ _ =>
      hbindings.bind fun _ _ => blameless_pure _
  · exact (blameless_stringAt _ _).bind fun _ _ => (hbuffers 0).bind fun _ _ =>
      hbindings.bind fun _ _ => blameless_pure _

end ResourceDefinitions

/-! ### Signatures

The three layouts of an element differ in what stands in front of the common fields and behind them.
-/

namespace Signature

open Decode

theorem blameless_elementFields (layout : Layout) : BlamelessFrom (elementFields layout) := by
  -- the fields that all layouts have, with what stands behind them left open
  have hrest (stream : UInt32) (action : Decode MinPrecision) (h : BlamelessFrom action) :
      BlamelessFrom (do
        let name ← Cursor.u32
        let semanticIndex ← Cursor.u32
        let systemValue := SystemValue.ofCode (← Cursor.u32)
        let componentType := ComponentType.ofCode (← Cursor.u32)
        let register ← Cursor.u32
        let mask ← Cursor.u8
        let accessMask ← Cursor.u8
        let _ ← Cursor.u16
        let minPrecision ← action
        return (name, fun name => (⟨name, semanticIndex, systemValue, componentType, register, mask,
          accessMask, stream, minPrecision⟩ : SignatureElement))) :=
    .read_bind _ fun _ => .read_bind _ fun _ => .read_bind _ fun _ => .read_bind _ fun _ =>
      .read_bind _ fun _ => .read_bind _ fun _ => .read_bind _ fun _ => .read_bind _ fun _ =>
      h.bind fun _ => blamelessFrom_pure _
  cases layout with
  | basic => exact (blamelessFrom_pure _).bind fun _ => hrest _ _ (blamelessFrom_pure _)
  | stream => exact .read_bind _ fun _ => hrest _ _ (blamelessFrom_pure _)
  | streamPrecision => exact .read_bind _ fun _ => hrest _ _ ((blamelessFrom_read _).map _)

/-- An element, with its name. -/
theorem blameless_elementAt (payload : Bytes) (layout : Layout) (position : Nat) :
    Blameless (elementAt payload layout position) :=
  (blameless_fieldsAt (blameless_elementFields layout) _ _).bind fun _ _ =>
    (blameless_stringAt _ _).bind fun _ _ => blameless_pure _

/-- A signature payload is decoded without a defect. -/
theorem blameless_decode (tag : Tag) (payload : Bytes) : Blameless (decode tag payload) := by
  unfold decode
  split
  · refine (blameless_fieldsAt ?_ _ _).bind fun _ _ => ?_
    · exact .read_bind _ fun _ => .read_bind _ fun _ => blamelessFrom_pure _
    · exact (blameless_repeated (fun _ => blameless_elementAt _ _ _) _ _).bind fun _ _ =>
        blameless_pure _
  · exact blameless_error Bool.false_ne_true

end Signature

/-! ### Containers

A container is refused for its framing or for a payload. The framing is checked without any position
that could be missing, so only the payloads matter. -/

/-- Each kind of payload is decoded without a defect. -/
theorem Chunk.blameless_payload (c : Chunk) : Blameless c.payload := by
  unfold Chunk.payload
  split
  · exact (ResourceDefinitions.blameless_decode _).map _
  · exact (Program.blameless_decode _).map _
  · exact (Signature.blameless_decode _ _).map _
  · exact (Signature.blameless_decode _ _).map _
  · exact (Signature.blameless_decode _ _).map _
  · exact blameless_pure _
  · exact blameless_pure _

namespace Container

/-- The header and the table are read without a defect. -/
theorem blameless_frame (data : Bytes) : Blameless (frame data) := by
  have hread {α : Type} (x : Except ReadError α) :
      Blameless (x.mapError ContainerError.read) :=
    blameless_mapError fun _ _ => Bool.false_ne_true
  refine (hread _).bind fun p _ => ?_
  dsimp only
  split
  · exact (blameless_error Bool.false_ne_true).bind fun _ h => by cases h
  split
  · exact (blameless_error Bool.false_ne_true).bind fun _ h => by cases h
  · exact (hread _).bind fun _ _ => (hread _).bind fun _ _ => blameless_pure _

/-- A chunk that does not fit is refused by its index. -/
theorem blameless_chunksFrom (data : Bytes) (tableEnd index : Nat) (offsets : List UInt32) :
    Blameless (chunksFrom data tableEnd index offsets).result := by
  induction offsets generalizing index with
  | nil => exact blameless_pure _
  | cons offset offsets ih =>
    -- a chunk is refused for its place, or for a size that does not fit
    have hchunk : Blameless (chunkAt data tableEnd index offset) := by
      unfold chunkAt
      dsimp only
      split
      · exact blameless_error Bool.false_ne_true
      · split
        · exact blameless_error Bool.false_ne_true
        · exact blameless_pure _
    unfold chunksFrom
    split
    · next e he => exact blameless_error (hchunk e he)
    · rw [Run.result_cons]
      exact (ih (index + 1)).map _

/-- **A container is decoded without a defect**, whatever the data. -/
theorem blameless_decode (data : Bytes) : Blameless (decode data) := by
  refine (blameless_frame data).bind fun f _ => ?_
  refine (blameless_mapM fun c _ => ?_).bind fun _ _ => ?_
  · exact blameless_mapError c.blameless_payload
  · exact (blameless_chunksFrom _ _ _ _).bind fun _ _ => blameless_pure _

end Container
end ShaderBytecode
