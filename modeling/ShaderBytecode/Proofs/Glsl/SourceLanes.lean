import ShaderBytecode.Glsl.Emit
import ShaderBytecode.Proofs.Glsl.Typing

/-!
# Sources hold the lanes they select

A source operand names a register, or an element of an array of registers, and for each lane the
component it takes; or it has literals. `Operand.Denotes` says which words these are, without regard
to how the operand is written down in a shader. An element may be named by the contents of a
register, which is an operand in turn.

    source_denotes : o.Denotes m ws → o.HasWordPositions → the lowered source has the type that is
                       asked for, and its lanes are those of ws that the mask selects

The position of an element is a number, a register, or the sum of both. A shader computes it with
words: a sum wraps around, and a number that is no word cannot be written down. Indices of 64 bits
may hold such numbers, which is what `Operand.HasWordPositions` excludes and
`not_source_denotes_beyondWords` shows an example of.

The proof is an induction on what is denoted. Only elements of arrays have operands within them, and
these are read as signed numbers in one lane, whatever the element is read as.
-/

namespace ShaderBytecode

/-! ### What an operand denotes

This is the meaning of an operand by itself: which register, which element, which component. Types
do not occur, for a word is a word in all of them. -/

/-- One thing for each lane. -/
def perLane (x y z w : α) : Lane → α
  | 0 => x
  | 1 => y
  | 2 => z
  | 3 => w

/-- The component that feeds each lane, for an operand of four components that selects one for every
lane. -/
def Components.Picks (components : Components) (pick : Lane → Lane) : Prop :=
  (∃ selection, components = .four selection) ∧
    ∀ lane : Lane, components.laneSource? lane.val = some (pick lane)

theorem Components.picks_swizzle (x y z w : Lane) :
    (four (.swizzle x y z w)).Picks (perLane x y z w) :=
  ⟨⟨_, rfl⟩, fun
    | 0 | 1 | 2 | 3 => rfl⟩

theorem Components.picks_single (component : Lane) :
    (four (.single component)).Picks fun _ => component :=
  ⟨⟨_, rfl⟩, fun _ => rfl⟩

open Glsl

namespace Operand

/-- The variable that an operand names, unless it is an element of an array. -/
def namedRegister? (o : Operand) : Option Name :=
  match o.file, o.indices with
  | .input, [i] => if i.base.isNone then some (.register .input i.value.toNat) else none
  | .temp, indices | .output, indices =>
    indices.getLast?.bind fun i =>
      if i.base.isNone then some (.register o.file i.value.toNat) else none
  | _, _ => none

/-- The array that an operand names an element of, and the index of the element. -/
def arrayElement? (o : Operand) : Option (Name × Index) :=
  match o.file, o.indices with
  | .indexableTemp, number :: i :: _ =>
    if number.base.isNone then some (.register .indexableTemp number.value.toNat, i) else none
  | .immediateConstantBuffer, i :: _ => some (.immediateBuffer, i)
  | _, _ => none

/-- The words that an operand without a modifier has for the lanes, where `m` has the contents of
registers. The constructors follow the ways of naming a value: a register, an element of an array,
or literals. -/
inductive Denotes (m : Memory) : Operand → (Lane → UInt32) → Prop where
  | register {o : Operand} {n : Name} {pick : Lane → Lane} :
      o.head.modifier = .none → o.components.Picks pick → o.namedRegister? = some n →
      Denotes m o fun lane => m ⟨n, 0, pick lane⟩
  /-- An element whose position is a number. -/
  | element {o : Operand} {array : Name} {i : Index} {pick : Lane → Lane} :
      o.head.modifier = .none → o.components.Picks pick → o.arrayElement? = some (array, i) →
      i.base = none → Denotes m o fun lane => m ⟨array, i.value.toNat, pick lane⟩
  /-- An element whose position is the sum of a number and the first lane of another operand. The
  sum is one of words, so a register may hold a negative number. -/
  | relativeElement {o base : Operand} {array : Name} {i : Index} {pick : Lane → Lane}
      {ws : Lane → UInt32} :
      o.head.modifier = .none → o.components.Picks pick → o.arrayElement? = some (array, i) →
      i.base = some base → Denotes m base ws →
      Denotes m o fun lane => m ⟨array, (ws .x + i.value.toUInt32).toNat, pick lane⟩
  | literal {o : Operand} {w : UInt32} :
      o.head.modifier = .none → o.file = .immediate32 → o.literals = some (.bits32 [w]) →
      Denotes m o fun _ => w
  | literals {o : Operand} {x y z w : UInt32} :
      o.head.modifier = .none → o.file = .immediate32 →
      o.literals = some (.bits32 [x, y, z, w]) →
      Denotes m o (perLane x y z w)

/-- The number in the index of an element is a word. If there is a register within the index that is
an element in turn, the same holds of its index, and so on. -/
inductive HasWordPositions : Operand → Prop where
  | mk {o : Operand}
      (number : ∀ array i, o.arrayElement? = some (array, i) → i.value.toNat < wordLimit)
      (base : ∀ array i base, o.arrayElement? = some (array, i) → i.base = some base →
        HasWordPositions base) :
      HasWordPositions o

/-- Literals and registers outside of arrays have no positions. -/
theorem hasWordPositions_of_arrayElement?_eq_none {o : Operand} (h : o.arrayElement? = none) :
    o.HasWordPositions := by
  refine .mk ?_ ?_
  · intro array i hi
    rw [h] at hi
    cases hi
  · intro array i base hi
    rw [h] at hi
    cases hi

theorem HasWordPositions.of_arrayElement? {o : Operand} (h : o.HasWordPositions) {array : Name}
    {i : Index} (hi : o.arrayElement? = some (array, i)) :
    i.value.toNat < wordLimit ∧ ∀ base, i.base = some base → base.HasWordPositions := by
  obtain ⟨hnumber, hbase⟩ := h
  exact ⟨hnumber array i hi, fun base => hbase array i base hi⟩

end Operand

/-! ### Indices and storage

Lowering takes the indices with their registers lowered already. -/

/-- An index with its register lowered. -/
def Index.part (ctx : Context) (i : Index) : IndexPart :=
  ⟨i.value, i.base.map fun base => base.source ctx (.single .x) .int⟩

theorem Indices.parts_eq (ctx : Context) :
    ∀ indices : Indices, indices.parts ctx = indices.toList.map (Index.part ctx)
  | .nil => by rw [Indices.parts]; rfl
  | .fixed _ value rest => by rw [Indices.parts, parts_eq ctx rest]; rfl
  | .relative _ value base rest => by rw [Indices.parts, parts_eq ctx rest]; rfl

theorem Operand.source_eq (ctx : Context) (o : Operand) (mask : LaneMask) (type : NumberType) :
    o.source ctx mask type
      = sourceOf ctx o.head (o.indices.map (Index.part ctx)) o.literals mask type := by
  cases o
  rw [Operand.source, Indices.parts_eq]
  rfl

namespace Glsl

/-- The number type of the variable for a register. -/
def Context.backingType (ctx : Context) (file : RegisterFile) (number : UInt32) : NumberType :=
  match file with
  | .input => ctx.inputType number
  | .output => ctx.outputType number
  | _ => .float

/-- Registers are declared as vectors of four components with the number types of their variables;
arrays of registers and the immediate buffer have such vectors as elements. -/
structure Scope.Declares (scope : Scope) (ctx : Context) : Prop where
  register : ∀ (file : RegisterFile) (number : UInt64),
    scope (.register file number.toNat) = registerType (ctx.backingType file number.toUInt32)
  immediateBuffer : scope .immediateBuffer = .vec4

section

variable {ctx : Context} {o : Operand}

/-- A file of registers: neither literals nor the rows of a constant buffer. -/
def isRegisterFile : RegisterFile → Bool
  | .immediate32 | .immediate64 | .constantBuffer => false
  | _ => true

theorem unmodifiedSource_of_isRegisterFile {indices : List IndexPart} {mask : LaneMask}
    {type : NumberType} (h : isRegisterFile o.file) :
    unmodifiedSource ctx o.head indices o.literals mask type
      = (registerStorage ctx o.file indices).map fun storage => do
          let s ← storage
          return (registerLanes o.components mask s).convert s.type type mask.width := by
  unfold unmodifiedSource
  change isRegisterFile o.head.file at h
  split
  · -- neither literals nor rows of a buffer
    next hfile => rw [hfile] at h; cases h
  · next hfile => rw [hfile] at h; cases h
  · next hfile => rw [hfile] at h; cases h
  · rfl

/-- The variable of an operand that is no element of an array. -/
theorem registerStorage_of_namedRegister? (ctx : Context) {n : Name}
    (h : o.namedRegister? = some n) :
    isRegisterFile o.file ∧ ∃ (file : RegisterFile) (number : UInt64),
      n = .register file number.toNat ∧ n.isArray = false ∧
      registerStorage ctx o.file (o.indices.map (Index.part ctx))
        = some (pure ⟨.name n, ctx.backingType file number.toUInt32⟩) := by
  unfold Operand.namedRegister? at h
  split at h
  · -- an input, by its only index
    next i hfile hindices =>
    split at h
    · cases h
      rw [hfile, hindices]
      exact ⟨rfl, .input, i.value, rfl, rfl, rfl⟩
    · cases h
  · -- a temporary register, by its last index
    next hfile =>
    obtain ⟨i, hi, h⟩ := Option.bind_eq_some_iff.1 h
    split at h
    · cases h
      rw [hfile]
      refine ⟨rfl, .temp, i.value, rfl, rfl, ?_⟩
      simp only [registerStorage, List.getLast?_map, hi, Option.map_some, Option.getD_some]
      rfl
    · cases h
  · -- an output, by its last index
    next hfile =>
    obtain ⟨i, hi, h⟩ := Option.bind_eq_some_iff.1 h
    split at h
    · cases h
      rw [hfile]
      refine ⟨rfl, .output, i.value, rfl, rfl, ?_⟩
      simp only [registerStorage, List.getLast?_map, hi, Option.map_some, Option.getD_some]
      rfl
    · cases h
  · cases h

/-- The element of an operand that is an element of an array. -/
theorem registerStorage_of_arrayElement? {array : Name} {i : Index}
    (h : o.arrayElement? = some (array, i)) :
    isRegisterFile o.file ∧
      registerStorage ctx o.file (o.indices.map (Index.part ctx)) = some do
        let position ← (i.part ctx).expr
        return ⟨.element (.name array) position, .float⟩ := by
  unfold Operand.arrayElement? at h
  split at h
  · next number j rest hfile hindices =>
    split at h
    · cases h
      rw [hfile, hindices]
      exact ⟨rfl, rfl⟩
    · cases h
  · next j rest hfile hindices =>
    cases h
    rw [hfile, hindices]
    exact ⟨rfl, rfl⟩
  · cases h

theorem of_arrayElement? {array : Name} {i : Index} (h : o.arrayElement? = some (array, i)) :
    array.isArray ∧ (∀ identifier, array ≠ .sampler identifier) ∧
      ∀ {scope : Scope}, scope.Declares ctx → scope array = .vec4 := by
  unfold Operand.arrayElement? at h
  split at h
  · split at h
    · cases h
      exact ⟨rfl, nofun, fun hscope => hscope.register .indexableTemp _⟩
    · cases h
  · cases h
    exact ⟨rfl, nofun, fun hscope => hscope.immediateBuffer⟩
  · cases h

end
end Glsl

/-! ### Lanes of a mask

Facts about masks of four lanes, found by trying all of them. -/

namespace LaneMask

theorem lanes_ne_nil : ∀ {mask : LaneMask}, mask ≠ 0 → mask.lanes ≠ [] := by decide

theorem length_lanes_le (mask : LaneMask) : mask.lanes.length ≤ 4 :=
  List.length_filter_le _ _

theorem width_of_ne_zero {mask : LaneMask} (h : mask ≠ 0) : mask.width = mask.lanes.length :=
  Nat.max_eq_left (List.length_pos_iff.2 (lanes_ne_nil h))

theorem orFirst_of_ne_zero {mask : LaneMask} (h : mask ≠ 0) : mask.orFirst = mask :=
  if_neg h

theorem lanes_single_x : (single .x).lanes = [.x] := by decide

end LaneMask

theorem Components.Picks.selected {components : Components} {pick : Lane → Lane}
    (h : components.Picks pick) (mask : LaneMask) :
    components.selected mask = mask.lanes.map pick := by
  obtain ⟨⟨selection, rfl⟩, hpick⟩ := h
  simp only [Components.selected, hpick]
  exact congrFun List.filterMap_eq_map _

namespace Glsl

section

variable {A : Arithmetic} {scope : Scope} {m : Memory}

/-! ### Sources of one kind

A register is read in three steps: its variable, the components that are picked, and a conversion.
-/

/-- An expression stands beside an operator and has the words of some lanes. -/
structure HoldsLanes (A : Arithmetic) (scope : Scope) (m : Memory) (e : Expr) (t : NumberType)
    (mask : LaneMask) (ws : Lane → UInt32) : Prop where
  isOperand : e.isOperand
  holds : Holds A scope m e t (mask.lanes.map ws)

theorem isOperand_convert {e : Expr} {source target : NumberType} {width : Nat}
    (h : e.isOperand) : (e.convert source target width).isOperand := by
  unfold Expr.convert
  split
  · exact h
  · split <;> rfl

theorem holdsLanes_of_storage {ctx : Context} {o : Operand} {mask : LaneMask} {type : NumberType}
    {pick : Lane → Lane} {storage : Traced Storage} {n : Name} {i : Nat} (hA : A.Lawful)
    (hmask : mask ≠ 0) (htype : type ≠ .double) (hmodifier : o.head.modifier = .none)
    (hpick : o.components.Picks pick) (hfile : isRegisterFile o.file)
    (hstorage : registerStorage ctx o.file (o.indices.map (Index.part ctx)) = some storage)
    (hdouble : storage.value.type ≠ .double)
    (h : StandsFor A scope m storage.value.expr storage.value.type n i) :
    HoldsLanes A scope m (o.source ctx mask type).value type mask
      fun lane => m ⟨n, i, pick lane⟩ := by
  -- a mask with a lane picks at least one component
  have hsome : (mask.lanes.map pick).isEmpty = false := by
    simpa using LaneMask.lanes_ne_nil hmask
  have hlanes : registerLanes o.components mask storage.value
      = storage.value.expr.select (mask.lanes.map pick) := by
    rw [← hpick.selected]
    obtain ⟨⟨selection, hselection⟩, -⟩ := hpick
    rw [hselection]
    rfl
  have hvalue : (o.source ctx mask type).value
      = (Expr.components storage.value.expr (mask.lanes.map pick)).convert storage.value.type type
          mask.lanes.length := by
    rw [Operand.source_eq, sourceOf, unmodifiedSource_of_isRegisterFile hfile, hstorage]
    simp only [Option.map_some, Traced.value_bind, Traced.value_pure, hmodifier, modify, hlanes,
      LaneMask.width_of_ne_zero hmask, Expr.select, hsome, Bool.false_eq_true, if_false]
  have hholds : Holds A scope m (.components storage.value.expr (mask.lanes.map pick))
      storage.value.type _ :=
    h.holds_components (by simpa using LaneMask.lanes_ne_nil hmask)
      (by simpa using LaneMask.length_lanes_le mask)
  rw [hvalue]
  refine ⟨isOperand_convert rfl, ?_⟩
  have hconvert := hholds.convert hA hdouble htype
  rwa [List.map_map, List.length_map] at hconvert

/-! ### Literals

A literal of 32 bits is written for the type that is asked for. Signed numbers are written with
their sign, and the bits come out as they went in. -/

theorem toNat_ofInt (n : Int) : (UInt32.ofInt n).toNat = (n % 0x100000000).toNat := by
  rw [UInt32.ofInt, UInt32.toNat_ofNat']
  omega

theorem toInt_toInt32 (w : UInt32) :
    w.toInt32.toInt
      = if w.toNat < 0x80000000 then (w.toNat : Int) else w.toNat - 0x100000000 := by
  have hword : w.toInt32.toInt = w.toBitVec.toInt := rfl
  rw [hword, BitVec.toInt_eq_toNat_cond, UInt32.toNat_toBitVec]
  split <;> split <;> omega

theorem holds_signed (w : UInt32) : Holds A scope m (.signed w) .int [w] := by
  have hw := w.toNat_lt
  have hint := toInt_toInt32 w
  -- going to a signed number and back leaves the word
  have hword : UInt32.ofInt w.toInt32.toInt = w := by
    apply UInt32.toNat_inj.1
    rw [toNat_ofInt]
    omega
  have habs : w.toInt32.toInt.natAbs < wordLimit := by
    rw [wordLimit]
    omega
  have hholds : Holds A scope m (.signed w) .int [UInt32.ofInt w.toInt32.toInt] :=
    holds_integer habs
  rwa [hword] at hholds

theorem isOperand_literal32 (type : NumberType) (w : UInt32) :
    (Expr.literal32 type w).isOperand := by
  cases type with
  | float =>
    simp only [Expr.literal32, Expr.floatLiteral]
    split <;> rfl
  | int => rfl
  | uint => rfl
  | double =>
    simp only [Expr.literal32, Expr.doubleLiteral]
    split <;> rfl

/-- A literal stands for its bits, of whatever type of 32 bits. -/
theorem holds_literal32 (hA : A.Lawful) {type : NumberType} (htype : type ≠ .double) (w : UInt32) :
    Holds A scope m (.literal32 type w) type [w] := by
  cases type with
  | float =>
    simp only [Expr.literal32, Expr.floatLiteral]
    split
    · exact ⟨.float, rfl⟩
    · have hpattern : Holds A scope m (.pattern w) .uint [w] := ⟨.pattern, rfl⟩
      exact hpattern.bitCast hA rfl
  | int => exact holds_signed w
  | uint => exact ⟨.unsigned, rfl⟩
  | double => contradiction

theorem holdsLanes_of_literals {ctx : Context} {o : Operand} {mask : LaneMask} {type : NumberType}
    {values : List UInt32} {ws : Lane → UInt32} (hA : A.Lawful) (hmask : mask ≠ 0)
    (htype : type ≠ .double) (hmodifier : o.head.modifier = .none) (hfile : o.file = .immediate32)
    (hliterals : o.literals = some (.bits32 values))
    (hvalues : ∀ lane : Lane, Literals.valueAt? values lane.val = some (ws lane)) :
    HoldsLanes A scope m (o.source ctx mask type).value type mask ws := by
  have hvalue : (o.source ctx mask type).value = (literalSource o.literals mask type).value := by
    change o.head.file = _ at hfile
    rw [Operand.source_eq, sourceOf, unmodifiedSource, hfile]
    simp only [Traced.value_bind, Traced.value_pure, hmodifier, modify]
  have hlanes : (mask.lanes.filterMap fun lane => Expr.literal? (.bits32 values) lane type)
      = mask.lanes.map fun lane => Expr.literal32 type (ws lane) := by
    simp only [Expr.literal?, hvalues, Option.map_some]
    exact congrFun List.filterMap_eq_map _
  rw [hvalue, hliterals, literalSource, LaneMask.orFirst_of_ne_zero hmask, hlanes]
  have hsome := LaneMask.lanes_ne_nil hmask
  have hmost := mask.length_lanes_le
  -- A single lane is the literal itself, several are put together.
  split
  · next hnil => exact absurd (List.map_eq_nil_iff.1 hnil) hsome
  · next e hone =>
    obtain ⟨lane, hlane, rfl⟩ := List.map_eq_singleton_iff.1 hone
    exact ⟨isOperand_literal32 type (ws lane), by
      rw [hlane]
      exact holds_literal32 hA htype (ws lane)⟩
  · next hnil hone =>
    have hleast : 2 ≤ mask.lanes.length := by
      match hl : mask.lanes with
      | [] => exact absurd hl hsome
      | [lane] => exact absurd (by rw [hl]; rfl) (hone _)
      | _ :: _ :: _ => simp
    refine ⟨rfl, ?_⟩
    rw [Traced.value_pure, List.length_map]
    exact .construct hA htype (fun lane _ => holds_literal32 hA htype (ws lane)) hleast hmost

/-! ### Positions

Positions are whole numbers with a sign. The sum of a register and a number is one of words. -/

/-- A position that is a number. -/
theorem holds_position (ctx : Context) {i : Index} (hbase : i.base = none)
    (hnumber : i.value.toNat < wordLimit) :
    ∃ w, w.toNat = i.value.toNat ∧ Holds A scope m (i.part ctx).expr.value .int [w] := by
  refine ⟨.ofInt i.value.toNat, ?_, ?_⟩
  · rw [toNat_ofInt]
    rw [wordLimit] at hnumber
    omega
  · rw [Index.part, IndexPart.expr, hbase]
    exact holds_integer (by simpa using hnumber)

/-- A position that is the sum of a number and a register. Without a number it is the register
alone, and no sum is written. -/
theorem holds_relativePosition {ctx : Context} {i : Index} {base : Operand} {w : UInt32}
    (hA : A.Lawful) (hbase : i.base = some base) (hnumber : i.value.toNat < wordLimit)
    (hoperand : (base.source ctx (.single .x) .int).value.isOperand)
    (h : Holds A scope m (base.source ctx (.single .x) .int).value .int [w]) :
    Holds A scope m (i.part ctx).expr.value .int [w + i.value.toUInt32] := by
  -- a number that fits into the positive integers is the same word
  have hword : UInt32.ofInt i.value.toNat = i.value.toUInt32 := by
    apply UInt32.toNat_inj.1
    rw [toNat_ofInt, UInt64.toNat_toUInt32]
    omega
  rw [Index.part, IndexPart.expr, hbase]
  simp only [Option.map_some, Traced.value_bind, Traced.value_pure]
  split
  · next hzero =>
    have hsame : w + i.value.toUInt32 = w := by
      rw [hzero]
      exact UInt32.add_zero w
    rwa [hsame]
  · rw [← hword]
    exact .add hA hoperand rfl h (holds_integer (by simpa using hnumber))

/-! ### All sources

The cases of what an operand denotes, each put together from the parts above. -/

theorem signatureType_ne_double (s : Option Signature) (register : UInt32) :
    signatureType s register ≠ .double := by
  unfold signatureType ComponentType.numberType
  split
  · split <;> nofun
  · nofun

theorem backingType_ne_double (c : Container) (file : RegisterFile) (number : UInt32) :
    (contextOf c).backingType file number ≠ .double := by
  unfold Context.backingType
  split
  · exact signatureType_ne_double _ _
  · exact signatureType_ne_double _ _
  · nofun

/-- An element of an array at a position that is a whole number. -/
theorem holdsLanes_of_arrayElement? {c : Container} {o : Operand} {array : Name} {i : Index}
    {mask : LaneMask} {type : NumberType} {pick : Lane → Lane} {w : UInt32} (hA : A.Lawful)
    (hscope : scope.Declares (contextOf c)) (hmask : mask ≠ 0) (htype : type ≠ .double)
    (hmodifier : o.head.modifier = .none) (hpick : o.components.Picks pick)
    (harray : o.arrayElement? = some (array, i))
    (hposition : Holds A scope m (i.part (contextOf c)).expr.value .int [w]) :
    HoldsLanes A scope m (o.source (contextOf c) mask type).value type mask
      fun lane => m ⟨array, w.toNat, pick lane⟩ := by
  obtain ⟨hfile, hstorage⟩ := registerStorage_of_arrayElement? harray
  obtain ⟨hisArray, hn, hdeclared⟩ := of_arrayElement? harray
  refine holdsLanes_of_storage hA hmask htype hmodifier hpick hfile hstorage nofun
    ⟨hn, hdeclared hscope, rfl, .element hisArray hposition.hasType, ?_⟩
  simp only [Traced.value_bind, Traced.value_pure, Expr.eval, hposition.eval]
  rfl

/-- Sources hold the words that they denote. The induction follows the ways of naming a value: the
position of an element may depend on another operand, which is read from its first lane. -/
theorem holdsLanes_source {c : Container} {o : Operand} {ws : Lane → UInt32} (hA : A.Lawful)
    (hscope : scope.Declares (contextOf c)) (h : o.Denotes m ws) (hwords : o.HasWordPositions) :
    ∀ {mask type}, mask ≠ 0 → type ≠ .double →
      HoldsLanes A scope m (o.source (contextOf c) mask type).value type mask ws := by
  -- the induction is on how the operand denotes its words
  induction h with
  | register hmodifier hpick hregister =>
    intro mask type hmask htype
    obtain ⟨hfile, file, number, rfl, hisArray, hstorage⟩ :=
      registerStorage_of_namedRegister? (contextOf c) hregister
    exact holdsLanes_of_storage hA hmask htype hmodifier hpick hfile hstorage
      (backingType_ne_double c file _)
      ⟨nofun, hscope.register file number, rfl, .name hisArray, rfl⟩
  | element hmodifier hpick harray hbase =>
    intro mask type hmask htype
    obtain ⟨w, hw, hposition⟩ :=
      holds_position (contextOf c) hbase (hwords.of_arrayElement? harray).1
    rw [← hw]
    exact holdsLanes_of_arrayElement? hA hscope hmask htype hmodifier hpick harray hposition
  | relativeElement hmodifier hpick harray hbase _ ih =>
    intro mask type hmask htype
    obtain ⟨hnumber, hbases⟩ := hwords.of_arrayElement? harray
    have hfirst : HoldsLanes A scope m _ .int (.single .x) _ :=
      ih (hbases _ hbase) (by decide) nofun
    have hholds := hfirst.holds
    rw [LaneMask.lanes_single_x] at hholds
    exact holdsLanes_of_arrayElement? hA hscope hmask htype hmodifier hpick harray
      (holds_relativePosition hA hbase hnumber hfirst.isOperand hholds)
  | literal hmodifier hfile hliterals =>
    intro mask type hmask htype
    exact holdsLanes_of_literals hA hmask htype hmodifier hfile hliterals fun
      | 0 | 1 | 2 | 3 => rfl
  | literals hmodifier hfile hliterals =>
    intro mask type hmask htype
    exact holdsLanes_of_literals hA hmask htype hmodifier hfile hliterals fun
      | 0 | 1 | 2 | 3 => rfl

/-- **Sources hold the lanes they select.** A source that is lowered for some lanes and for a type
of 32 bits has this type and as many components as there are lanes. Bit for bit, these are what the
operand denotes for the lanes, in their order. The numbers in the indices of elements have to be
words. -/
theorem source_denotes {c : Container} {o : Operand} {ws : Lane → UInt32} {mask : LaneMask}
    {type : NumberType} (hA : A.Lawful) (hscope : scope.Declares (contextOf c))
    (h : o.Denotes m ws) (hwords : o.HasWordPositions) (hmask : mask ≠ 0) (htype : type ≠ .double) :
    HasType scope (o.source (contextOf c) mask type).value ⟨type, mask.lanes.length⟩ ∧
      (o.source (contextOf c) mask type).value.eval A scope m
        = mask.lanes.map fun lane => .ofWord type (ws lane) := by
  have hholds := (holdsLanes_source hA hscope h hwords hmask htype).holds
  have hasType := hholds.hasType
  rw [List.length_map] at hasType
  exact ⟨hasType, by rw [hholds.eval, List.map_map]; rfl⟩

end

/-! ### An element whose position is an input

A position that is an input is minus one here, so that the sum with three wraps around. -/

theorem word_ofWord (t : NumberType) (w : UInt32) : (Scalar.ofWord t w).word = w := by
  cases t <;> rfl

/-- Conversions and sums as the language promises them. -/
def conversions : Arithmetic where
  call f arguments :=
    match bitCast? f, arguments with
    | some (_, target), [v] => v.map fun s => .ofWord target s.word
    | _, _ => []
  construct type arguments := arguments.flatten.map fun s => .ofWord type.scalar s.word
  unary _ _ := []
  binary operator v w :=
    match operator with
    | .add => List.zipWith (fun s t => .int (s.word + t.word)) v w
    | _ => []
  wide _ _ _ := ([], [])

theorem lawful_conversions : conversions.Lawful where
  bitCast hf ws := by
    simp only [conversions, hf, List.map_map]
    exact List.map_congr_left fun w _ => congrArg _ (word_ofWord _ w)
  construct {t width arguments} _ := by
    change arguments.flatten.map _ = _
    rw [List.map_eq_flatMap]
    rfl
  keepsBits _ w := by
    change [Scalar.ofWord _ _] = _
    rw [word_ofWord]
  again t s := by
    refine ⟨.ofWord t s.word, rfl, ?_⟩
    change [Scalar.ofWord _ _] = _
    rw [word_ofWord]
  add _ _ := rfl

/-- Registers with the types of their variables. -/
def Context.scope (ctx : Context) : Scope
  | .register file number => registerType (ctx.backingType file (UInt32.ofNat number))
  | _ => .vec4

theorem declares_scope (ctx : Context) : ctx.scope.Declares ctx where
  register _ _ := rfl
  immediateBuffer := rfl

/-- A container with an input register of whole numbers. -/
def indexedByInput : Container :=
  .ofPayloads (.ofBytes #[]) []
    [.inputSignature ⟨[⟨"BONE", 0, .undefined, .sint32, 1, 0xF, 0xF, 0, .full⟩]⟩]

/-- The input register. -/
def boneOperand : Operand :=
  .mk ⟨0, .input, .four (.single .x), .none, .full, false⟩ (.fixed .immediate32 1 .nil) none

/-- Three elements behind the one that the input register names. -/
def behindBoneOperand : Operand :=
  .mk ⟨0, .indexableTemp, .four (.swizzle .y .x .w .z), .none, .full, false⟩
    (.fixed .immediate32 0 (.relative .immediate32PlusRelative 3 boneOperand .nil)) none

/-- The input is minus one, and the elements of arrays are counted through. -/
def countedMemory : Memory := fun p =>
  if p.name = .register .input 1 then 0xFFFFFFFF else .ofNat (4 * p.element + p.lane.val)

/-- The first and the third lane of a source, from the components `y` and `w` of the element at
position two. -/
theorem source_denotes_behindBone :
    HasType (contextOf indexedByInput).scope
        (behindBoneOperand.source (contextOf indexedByInput) 0b0101 .uint).value ⟨.uint, 2⟩ ∧
      (behindBoneOperand.source (contextOf indexedByInput) 0b0101 .uint).value.eval conversions
        (contextOf indexedByInput).scope countedMemory = [.uint 9, .uint 11] := by
  have hbone : boneOperand.Denotes countedMemory fun _ => 0xFFFFFFFF :=
    .register (o := boneOperand) rfl (Components.picks_single .x) rfl
  -- three behind minus one is two
  have hbehind : behindBoneOperand.Denotes countedMemory
      fun lane => countedMemory ⟨.register .indexableTemp 0, 2, perLane .y .x .w .z lane⟩ :=
    .relativeElement (o := behindBoneOperand) rfl (Components.picks_swizzle ..) rfl rfl hbone
  have hwords : behindBoneOperand.HasWordPositions := by
    refine .mk ?_ ?_
    · rintro array i ⟨⟩
      decide
    · rintro array i base ⟨⟩ ⟨⟩
      exact Operand.hasWordPositions_of_arrayElement?_eq_none rfl
  exact source_denotes lawful_conversions (declares_scope _) hbehind hwords (by decide) (by decide)

/-! ### An element beyond all words -/

/-- The first component of an element whose position takes more than 32 bits. -/
def beyondWordsOperand : Operand :=
  .mk ⟨0, .indexableTemp, .four (.single .x), .none, .full, false⟩
    (.fixed .immediate32 0 (.fixed .immediate64 4294967296 .nil)) none

/-- The position is written down as it is, and what is written is no number of the language. -/
theorem not_source_denotes_beyondWords :
    ¬ ∀ (A : Arithmetic) (scope : Scope) (m : Memory) (c : Container) (o : Operand)
        (ws : Lane → UInt32) (mask : LaneMask) (type : NumberType),
      A.Lawful → scope.Declares (contextOf c) → o.Denotes m ws → mask ≠ 0 → type ≠ .double →
      HasType scope (o.source (contextOf c) mask type).value ⟨type, mask.lanes.length⟩ ∧
        (o.source (contextOf c) mask type).value.eval A scope m
          = mask.lanes.map fun lane => .ofWord type (ws lane) := by
  intro h
  have hbeyond : beyondWordsOperand.Denotes countedMemory
      fun _ => countedMemory ⟨.register .indexableTemp 0, 4294967296, .x⟩ :=
    .element (o := beyondWordsOperand) rfl (Components.picks_single .x) rfl rfl
  obtain ⟨htyped, -⟩ := h conversions _ countedMemory indexedByInput _ _ (.single .x) .float
    lawful_conversions (declares_scope _) hbeyond (by decide) (by decide)
  have hposition : HasType (contextOf indexedByInput).scope (.integer 4294967296) ⟨.int, 1⟩ := by
    cases htyped with
    | components _ helement =>
      cases helement with
      | element _ hposition => exact hposition
  cases hposition with
  | integer hword => exact absurd hword (by decide)

end Glsl
end ShaderBytecode
