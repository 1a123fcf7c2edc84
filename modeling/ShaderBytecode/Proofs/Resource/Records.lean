import Mathlib.Algebra.Ring.Nat
import ShaderBytecode.Proofs.Bytes.Records
import ShaderBytecode.Resource.Decode

/-!
# The records that resource definitions are made of

What a payload says about a type, a variable, a constant buffer or a binding is told here by the
bytes at the positions where its records stand, with no regard to the order in which a decoder gets
there: `Recorded payload d` says that `d` is what the records of a payload say.

A type is a tree of records. `recordCount` is how many records it is made of and `depth` how far
down it goes.

What records say is a relation between a payload and definitions, and not a function. It is shown to
be functional: records say one thing (`Recorded.unique`). A decoder that finds something recorded
has therefore found the only thing it may find.
-/

namespace ShaderBytecode

/-! ### Types -/

mutual

/-- The number of records that a type is made of, those of its members included. -/
def VariableType.recordCount : VariableType → Nat
  | .mk _ members => members.recordCount + 1

/-- The number of records that members are made of. -/
def Members.recordCount : Members → Nat
  | .nil => 0
  | .cons _ _ type rest => type.recordCount + rest.recordCount

end

mutual

/-- The number of levels below a type. -/
def VariableType.depth : VariableType → Nat
  | .mk _ members => members.depth

/-- The number of levels of members. -/
def Members.depth : Members → Nat
  | .nil => 0
  | .cons _ _ type rest => max (type.depth + 1) rest.depth

end

namespace Members

/-- The records of members are those of each of them. -/
theorem recordCount_ofList (l : List (String × UInt32 × VariableType)) :
    (ofList l).recordCount = (l.map fun m => m.2.2.recordCount).sum := by
  induction l with
  | nil => rfl
  | cons m l ih => simp [ofList, recordCount, ih]

/-- Members are as deep as the deepest of their types. -/
theorem depth_ofList_le_iff {l : List (String × UInt32 × VariableType)} {n : Nat} :
    (ofList l).depth ≤ n ↔ ∀ m ∈ l, m.2.2.depth < n := by
  induction l with
  | nil => simp [ofList, depth]
  | cons m l ih => rw [ofList, depth, Nat.max_le, ih, List.forall_mem_cons]; rfl

end Members

/-- The number of type records that the variables of a constant buffer are made of. -/
def ConstantBuffer.recordCount (b : ConstantBuffer) : Nat :=
  (b.vars.map fun v => v.type.recordCount).sum

namespace ResourceDefinitions

/-- The number of type records that all variables are made of. -/
def recordCount (d : ResourceDefinitions) : Nat := (d.buffers.map ConstantBuffer.recordCount).sum

/-! ### What stands where

The bytes of each record are named by their offsets in it, one field of a structure for each. The
numbers are those of the file format. -/

/-- The position that stands at a position of a payload. -/
def positionAt (payload : Bytes) (position : Nat) : Nat := (payload.wordAt position).toNat

/-- The name of a type: none in the older layout, and in the newer one the text that the last word
of the record points at, unless that word is zero. -/
def TypeNameRecorded (payload : Bytes) (sizes : RecordSizes) (position : Nat)
    (name : Option String) : Prop :=
  if RecordSizes.least.typeBytes < sizes.typeBytes then
    position + sizes.typeBytes ≤ payload.size ∧
      match name with
      | none => payload.wordAt (position + sizes.typeBytes - 4) = 0
      | some text => payload.wordAt (position + sizes.typeBytes - 4) ≠ 0 ∧
          TextAt payload (positionAt payload (position + sizes.typeBytes - 4)) text
  else name = none

/-- What the fields of a type record say about the type itself. -/
structure ShapeRecorded (payload : Bytes) (sizes : RecordSizes) (position : Nat)
    (shape : TypeShape) : Prop where
  room : position + RecordSizes.least.typeBytes ≤ payload.size
  variableClass : VariableClass.ofCode (payload.halfAt position) = .ok shape.variableClass
  base : shape.base = ComponentBase.ofCode (payload.halfAt (position + 2))
  rows : shape.rows = payload.halfAt (position + 4)
  columns : shape.columns = payload.halfAt (position + 6)
  elements : shape.elements = payload.halfAt (position + 8)
  name : TypeNameRecorded payload sizes position shape.name

/-- The number of members that a type record gives. -/
def memberCountAt (payload : Bytes) (position : Nat) : Nat := (payload.halfAt (position + 10)).toNat

/-- The position of the record of a member. -/
def memberPosition (payload : Bytes) (position index : Nat) : Nat :=
  positionAt payload (position + 12) + index * memberRecordBytes

/-- What a member record says about a member, apart from the type that it points at. -/
structure MemberRecorded (payload : Bytes) (position : Nat) (name : String) (offset : UInt32) :
    Prop where
  room : position + memberRecordBytes ≤ payload.size
  name : TextAt payload (positionAt payload position) name
  offset : offset = payload.wordAt (position + 8)

/-- The type tree that is found by going from the type record at a position to the records of its
members and on to the types that these point at. -/
inductive TypeRecorded (payload : Bytes) (sizes : RecordSizes) : Nat → VariableType → Prop
  | mk {position : Nat} {shape : TypeShape} {members : List (String × UInt32 × VariableType)}
      (shape_recorded : ShapeRecorded payload sizes position shape)
      (length_eq : members.length = memberCountAt payload position)
      (member_recorded : ∀ index m, members[index]? = some m →
        MemberRecorded payload (memberPosition payload position index) m.1 m.2.1)
      (type_recorded : ∀ index m, members[index]? = some m →
        TypeRecorded payload sizes
          (positionAt payload (memberPosition payload position index + 4)) m.2.2) :
      TypeRecorded payload sizes position (.mk shape (.ofList members))

/-- The default value of a variable: as many bytes as the variable is large, at the position that is
given, or none if that position is zero. -/
def DefaultRecorded (payload : Bytes) (position size : Nat) (default : Option Bytes) : Prop :=
  match default with
  | none => position = 0
  | some bytes => position ≠ 0 ∧ position + size ≤ payload.size ∧
      bytes = payload.extract position (position + size)

/-- The bytes of a variable record that are read. -/
def variableFieldBytes : Nat := 24

/-- What the record at a position says about a variable. -/
structure VariableRecorded (payload : Bytes) (sizes : RecordSizes) (position : Nat)
    (v : Variable) : Prop where
  room : position + variableFieldBytes ≤ payload.size
  name : TextAt payload (positionAt payload position) v.name
  offset : v.offset = payload.wordAt (position + 4)
  size : v.size = payload.wordAt (position + 8)
  flags : v.flags = payload.wordAt (position + 12)
  type : TypeRecorded payload sizes (positionAt payload (position + 16)) v.type
  default : DefaultRecorded payload (positionAt payload (position + 20)) v.size.toNat v.default

/-- The elements of `l` in ascending order of `key`, and for each key in the order of `l`. -/
structure StablySorted (key : α → UInt32) (l sorted : List α) : Prop where
  perm : sorted.Perm l
  ascending : sorted.Pairwise fun a b => key a ≤ key b
  stable : ∀ k, sorted.filter (key · == k) = l.filter (key · == k)

/-- The number of variables of the constant buffer whose record stands at a position. -/
def variableCountAt (payload : Bytes) (position : Nat) : Nat := positionAt payload (position + 4)

/-- The position of the record of a variable of that constant buffer. -/
def variablePosition (payload : Bytes) (sizes : RecordSizes) (position index : Nat) : Nat :=
  positionAt payload (position + 8) + index * sizes.variableBytes

/-- What the record at a position says about a constant buffer. -/
structure BufferRecorded (payload : Bytes) (sizes : RecordSizes) (position : Nat)
    (b : ConstantBuffer) : Prop where
  room : position + bufferRecordBytes ≤ payload.size
  name : TextAt payload (positionAt payload position) b.name
  vars : ∃ vars, vars.length = variableCountAt payload position ∧
    (∀ index v, vars[index]? = some v →
      VariableRecorded payload sizes (variablePosition payload sizes position index) v) ∧
    StablySorted Variable.offset vars b.vars
  size : b.size = payload.wordAt (position + 12)
  flags : b.flags = payload.wordAt (position + 16)
  kind : b.kind = BufferKind.ofCode (payload.wordAt (position + 20))

/-- What the record at a position says about a binding. -/
structure BindingRecorded (payload : Bytes) (position : Nat) (b : ResourceBinding) : Prop where
  room : position + RecordSizes.least.bindingBytes ≤ payload.size
  name : TextAt payload (positionAt payload position) b.name
  kind : b.kind = BindingKind.ofCode (payload.wordAt (position + 4))
  returnType : b.returnType = ReturnType.ofCode (payload.wordAt (position + 8))
  dimension : b.dimension = Dimension.ofViewCode (payload.wordAt (position + 12))
  sampleCount : b.sampleCount = payload.wordAt (position + 16)
  bindPoint : b.bindPoint = payload.wordAt (position + 20)
  bindCount : b.bindCount = payload.wordAt (position + 24)
  flags : b.flags = payload.wordAt (position + 28)

/-- The sizes that stand behind the preamble: they are announced from a certain version on, if the
tag stands in front of them. -/
def AnnouncementRecorded (payload : Bytes) (announced : Option AnnouncedSizes) : Prop :=
  match announced with
  | none => payload.byteAt 17 < announcingVersion ∨
      payload.extract 28 32 ≠ announcementTag.toArray
  | some sizes => announcingVersion ≤ payload.byteAt 17 ∧
      payload.extract 28 32 = announcementTag.toArray ∧ 60 ≤ payload.size ∧
      sizes = ⟨payload.wordAt 32, payload.wordAt 36, payload.wordAt 40, payload.wordAt 44,
        payload.wordAt 48, payload.wordAt 52, payload.wordAt 56⟩

/-- The record sizes of definitions, announced or not. -/
def recordSizes (d : ResourceDefinitions) : RecordSizes :=
  match d.announced with
  | none => .least
  | some a => ⟨a.variableBytes.toNat, a.typeBytes.toNat, a.bindingBytes.toNat⟩

/-- The position of the record of a constant buffer. -/
def bufferPosition (payload : Bytes) (index : Nat) : Nat :=
  positionAt payload 4 + index * bufferRecordBytes

/-- The position of the record of a binding. -/
def bindingPosition (payload : Bytes) (sizes : RecordSizes) (index : Nat) : Nat :=
  positionAt payload 12 + index * sizes.bindingBytes

/-- The bytes in front of the announced sizes. -/
def preambleBytes : Nat := 28

/-- What the records of a payload say. -/
structure Recorded (payload : Bytes) (d : ResourceDefinitions) : Prop where
  room : preambleBytes ≤ payload.size
  minorVersion : d.minorVersion = payload.byteAt 16
  majorVersion : d.majorVersion = payload.byteAt 17
  stage : Stage.ofResourceCode (payload.halfAt 18) = .ok d.stage
  flags : d.flags = payload.wordAt 20
  creator : if positionAt payload 24 = 0 then d.creator = ""
    else TextAt payload (positionAt payload 24) d.creator
  announced : AnnouncementRecorded payload d.announced
  length_buffers : d.buffers.length = positionAt payload 0
  buffers : ∀ index b, d.buffers[index]? = some b →
    BufferRecorded payload d.recordSizes (bufferPosition payload index) b
  length_bindings : d.bindings.length = positionAt payload 8
  bindings : ∀ index b, d.bindings[index]? = some b →
    BindingRecorded payload (bindingPosition payload d.recordSizes index) b

/-! ### Records say one thing

Each field is given by the payload, so two readings of one record agree field by field. Only the
types need an induction, and only the variables of a buffer need that a stable sort is unique. -/

section

variable {payload : Bytes} {sizes : RecordSizes}

/-- A type record gives one name. -/
theorem TypeNameRecorded.unique {position : Nat} {name name' : Option String}
    (h : TypeNameRecorded payload sizes position name)
    (h' : TypeNameRecorded payload sizes position name') : name = name' := by
  unfold TypeNameRecorded at h h'
  split at h
  · next hnewer =>
    rw [if_pos hnewer] at h'
    -- with records of the newer kind a name is there exactly if its place is not zero
    obtain ⟨-, h⟩ := h
    obtain ⟨-, h'⟩ := h'
    cases name with
    | none =>
      cases name' with
      | none => rfl
      | some text' => exact absurd h h'.1
    | some text =>
      cases name' with
      | none => exact absurd h' h.1
      | some text' => rw [h.2.unique h'.2]
  · next holder =>
    rw [if_neg holder] at h'
    rw [h, h']

/-- A type record gives one shape. -/
theorem ShapeRecorded.unique {position : Nat} {shape shape' : TypeShape}
    (h : ShapeRecorded payload sizes position shape)
    (h' : ShapeRecorded payload sizes position shape') : shape = shape' := by
  obtain ⟨c, b, r, col, e, n⟩ := shape
  obtain ⟨c', b', r', col', e', n'⟩ := shape'
  obtain rfl : c = c' := Except.ok.inj (h.variableClass.symm.trans h'.variableClass)
  obtain rfl : b = b' := h.base.trans h'.base.symm
  obtain rfl : r = r' := h.rows.trans h'.rows.symm
  obtain rfl : col = col' := h.columns.trans h'.columns.symm
  obtain rfl : e = e' := h.elements.trans h'.elements.symm
  obtain rfl : n = n' := h.name.unique h'.name
  rfl

/-- Two lists of one length are the same if there is one thing that can stand at each index. -/
theorem eq_of_getElem?_unique {l l' : List α} {P : Nat → α → Prop} (hlength : l.length = l'.length)
    (h : ∀ index a, l[index]? = some a → P index a)
    (h' : ∀ index a, l'[index]? = some a → ∀ b, P index b → b = a) : l = l' := by
  apply List.ext_getElem hlength
  intro index hindex hindex'
  exact h' index _ (List.getElem?_eq_getElem hindex') _
    (h index _ (List.getElem?_eq_getElem hindex))

/-- A type record gives one tree. -/
theorem TypeRecorded.unique {position : Nat} {type type' : VariableType}
    (h : TypeRecorded payload sizes position type)
    (h' : TypeRecorded payload sizes position type') : type = type' := by
  induction h generalizing type' with
  | @mk position shape members hshape hlength hmember _ ih =>
    cases h' with
    | @mk _ shape' members' hshape' hlength' hmember' htype' =>
    obtain rfl := hshape.unique hshape'
    -- the members have their places by number
    obtain rfl : members = members' := by
      apply List.ext_getElem (hlength.trans hlength'.symm)
      intro index hindex hindex'
      have hm := hmember index _ (List.getElem?_eq_getElem hindex)
      have hm' := hmember' index _ (List.getElem?_eq_getElem hindex')
      have htype := ih index _ (List.getElem?_eq_getElem hindex)
        (htype' index _ (List.getElem?_eq_getElem hindex'))
      exact Prod.ext (hm.name.unique hm'.name)
        (Prod.ext (hm.offset.trans hm'.offset.symm) htype)
    rfl

/-- A variable record gives one default value. -/
theorem DefaultRecorded.unique {position size : Nat} {default default' : Option Bytes}
    (h : DefaultRecorded payload position size default)
    (h' : DefaultRecorded payload position size default') : default = default' := by
  cases default with
  | none =>
    cases default' with
    | none => rfl
    | some bytes' => exact absurd h h'.1
  | some bytes =>
    cases default' with
    | none => exact absurd h' h.1
    | some bytes' => rw [h.2.2, h'.2.2]

/-- A variable record gives one variable. -/
theorem VariableRecorded.unique {position : Nat} {v v' : Variable}
    (h : VariableRecorded payload sizes position v)
    (h' : VariableRecorded payload sizes position v') : v = v' := by
  obtain ⟨name, offset, size, flags, type, default⟩ := v
  obtain ⟨name', offset', size', flags', type', default'⟩ := v'
  obtain rfl : name = name' := h.name.unique h'.name
  obtain rfl : offset = offset' := h.offset.trans h'.offset.symm
  obtain rfl : size = size' := h.size.trans h'.size.symm
  obtain rfl : flags = flags' := h.flags.trans h'.flags.symm
  obtain rfl : type = type' := h.type.unique h'.type
  obtain rfl : default = default' := h.default.unique h'.default
  rfl

/-- Lists with the same elements of each key have the same elements. -/
theorem mem_of_filter_eq {key : α → UInt32} {l l' : List α}
    (h : ∀ k, l.filter (key · == k) = l'.filter (key · == k)) {a : α} (ha : a ∈ l) : a ∈ l' := by
  have hkept : a ∈ l.filter (key · == key a) := List.mem_filter.2 ⟨ha, beq_self_eq_true _⟩
  rw [h] at hkept
  exact (List.mem_filter.1 hkept).1

/-- There is one way to sort a list that keeps the order of what has the same key. -/
theorem StablySorted.unique {key : α → UInt32} {l s s' : List α} (h : StablySorted key l s)
    (h' : StablySorted key l s') : s = s' := by
  have hfilter (k : UInt32) : s.filter (key · == k) = s'.filter (key · == k) :=
    (h.stable k).trans (h'.stable k).symm
  have hasc := h.ascending
  have hasc' := h'.ascending
  clear h h'
  -- both lists begin with the first element of the least key
  induction s generalizing s' with
  | nil =>
    cases s' with
    | nil => rfl
    | cons b s' => cases mem_of_filter_eq (fun k => (hfilter k).symm) (List.mem_cons_self (a := b))
  | cons a s ih =>
    cases s' with
    | nil => cases mem_of_filter_eq hfilter (List.mem_cons_self (a := a))
    | cons b s' =>
      have hab : key a ≤ key b := by
        have hb : b ∈ a :: s := mem_of_filter_eq (fun k => (hfilter k).symm) List.mem_cons_self
        rcases List.mem_cons.1 hb with rfl | hb
        · exact UInt32.le_refl _
        · exact (List.pairwise_cons.1 hasc).1 b hb
      have hba : key b ≤ key a := by
        have ha : a ∈ b :: s' := mem_of_filter_eq hfilter List.mem_cons_self
        rcases List.mem_cons.1 ha with rfl | ha
        · exact UInt32.le_refl _
        · exact (List.pairwise_cons.1 hasc').1 a ha
      have hkey : key a = key b := UInt32.le_antisymm hab hba
      -- the first elements have one key, and they are first among the elements with this key
      have hhead := hfilter (key a)
      rw [List.filter_cons_of_pos (by simp), List.filter_cons_of_pos (by simp [hkey])] at hhead
      obtain rfl : a = b := (List.cons.inj hhead).1
      congr 1
      refine ih (fun k => ?_) (List.pairwise_cons.1 hasc).2 (List.pairwise_cons.1 hasc').2
      have htail := hfilter k
      rw [List.filter_cons, List.filter_cons] at htail
      split at htail
      · exact (List.cons.inj htail).2
      · exact htail

/-- A buffer record gives one buffer. -/
theorem BufferRecorded.unique {position : Nat} {b b' : ConstantBuffer}
    (h : BufferRecorded payload sizes position b)
    (h' : BufferRecorded payload sizes position b') : b = b' := by
  obtain ⟨name, vars, size, flags, kind⟩ := b
  obtain ⟨name', vars', size', flags', kind'⟩ := b'
  obtain rfl : name = name' := h.name.unique h'.name
  obtain rfl : size = size' := h.size.trans h'.size.symm
  obtain rfl : flags = flags' := h.flags.trans h'.flags.symm
  obtain rfl : kind = kind' := h.kind.trans h'.kind.symm
  obtain ⟨l, hlength, hl, hsorted⟩ := h.vars
  obtain ⟨l', hlength', hl', hsorted'⟩ := h'.vars
  obtain rfl : l = l' := eq_of_getElem?_unique (hlength.trans hlength'.symm) hl
    fun index v hv w hw => hw.unique (hl' index v hv)
  obtain rfl : vars = vars' := hsorted.unique hsorted'
  rfl

/-- A binding record gives one binding. -/
theorem BindingRecorded.unique {position : Nat} {b b' : ResourceBinding}
    (h : BindingRecorded payload position b) (h' : BindingRecorded payload position b') :
    b = b' := by
  obtain ⟨name, kind, returnType, dimension, sampleCount, bindPoint, bindCount, flags⟩ := b
  obtain ⟨name', kind', returnType', dimension', sampleCount', bindPoint', bindCount', flags'⟩ := b'
  obtain rfl : name = name' := h.name.unique h'.name
  obtain rfl : kind = kind' := h.kind.trans h'.kind.symm
  obtain rfl : returnType = returnType' := h.returnType.trans h'.returnType.symm
  obtain rfl : dimension = dimension' := h.dimension.trans h'.dimension.symm
  obtain rfl : sampleCount = sampleCount' := h.sampleCount.trans h'.sampleCount.symm
  obtain rfl : bindPoint = bindPoint' := h.bindPoint.trans h'.bindPoint.symm
  obtain rfl : bindCount = bindCount' := h.bindCount.trans h'.bindCount.symm
  obtain rfl : flags = flags' := h.flags.trans h'.flags.symm
  rfl

/-- A payload announces its sizes in one way. -/
theorem AnnouncementRecorded.unique {announced announced' : Option AnnouncedSizes}
    (h : AnnouncementRecorded payload announced)
    (h' : AnnouncementRecorded payload announced') : announced = announced' := by
  -- sizes are announced by the version and the tag
  have hcontra {a : AnnouncedSizes} (hnone : AnnouncementRecorded payload none)
      (hsome : AnnouncementRecorded payload (some a)) : False := by
    rcases hnone with hversion | htag
    · exact UInt8.not_le.2 hversion hsome.1
    · exact htag hsome.2.1
  cases announced with
  | none =>
    cases announced' with
    | none => rfl
    | some a' => exact (hcontra h h').elim
  | some a =>
    cases announced' with
    | none => exact (hcontra h' h).elim
    | some a' => rw [h.2.2.2, h'.2.2.2]

/-- The records of a payload say one thing. -/
theorem Recorded.unique {d d' : ResourceDefinitions} (h : Recorded payload d)
    (h' : Recorded payload d') : d = d' := by
  obtain ⟨major, minor, stage, flags, creator, announced, buffers, bindings⟩ := d
  obtain ⟨major', minor', stage', flags', creator', announced', buffers', bindings'⟩ := d'
  obtain rfl : major = major' := h.majorVersion.trans h'.majorVersion.symm
  obtain rfl : minor = minor' := h.minorVersion.trans h'.minorVersion.symm
  obtain rfl : stage = stage' := Except.ok.inj (h.stage.symm.trans h'.stage)
  obtain rfl : flags = flags' := h.flags.trans h'.flags.symm
  obtain rfl : announced = announced' := h.announced.unique h'.announced
  obtain rfl : creator = creator' := by
    -- the creator is recorded exactly if its place is not zero
    have hcreator := h.creator
    have hcreator' := h'.creator
    split at hcreator
    · next hzero =>
      rw [if_pos hzero] at hcreator'
      exact hcreator.trans hcreator'.symm
    · next hne =>
      rw [if_neg hne] at hcreator'
      exact hcreator.unique hcreator'
  obtain rfl : buffers = buffers' :=
    eq_of_getElem?_unique (h.length_buffers.trans h'.length_buffers.symm) h.buffers
      fun index b hb b' hb' => hb'.unique (h'.buffers index b hb)
  obtain rfl : bindings = bindings' :=
    eq_of_getElem?_unique (h.length_bindings.trans h'.length_bindings.symm) h.bindings
      fun index b hb b' hb' => hb'.unique (h'.bindings index b hb)
  rfl

end

end ResourceDefinitions
end ShaderBytecode
