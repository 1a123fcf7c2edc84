import ShaderBytecode.Proofs.Glsl.LaneArithmetic
import ShaderBytecode.Proofs.Glsl.WrittenLanes

/-!
# Sources lane by lane

A source is lowered for a mask to the components that it picks of a register, or to literals. For a
single lane a literal stands alone, for several lanes literals are put together, and either may be
converted and modified. Whatever lanes a source is lowered for, a lane has the same number.

    LaneNumbers        : lane values that are numbers of a type
    laneNumbers_source : sources have them, of the type that is asked for

What is picked must be there. A component that a register lacks has no value, and the list of values
would be shorter than the list of lanes. So the sources are those whose components are declared.
-/

namespace ShaderBytecode

open Glsl

/-- The operand picks components that its register has, or it has literals: one for all lanes or one
for each. -/
inductive Operand.IsLaneSource (ctx : Context) (scope : Scope) (whole : LaneMask) (o : Operand) :
    Prop
  | register {pick : Lane → Lane} {register : Target} :
      o.components.Picks pick → isRegisterFile o.file → o.register ctx = some register →
      (∀ lane ∈ whole.lanes, (pick lane).val < (scope register.name).lanes) →
      IsLaneSource ctx scope whole o
  | literals {literals : Literals} :
      o.file = .immediate32 ∨ o.file = .immediate64 → o.literals = some literals →
      literals.length = 1 ∨ literals.length = 4 → IsLaneSource ctx scope whole o

namespace Glsl

/-- The variables of registers are declared with the number types of the registers. -/
def Scope.Fits (scope : Scope) (ctx : Context) : Prop :=
  ∀ {file indices storage register}, registerStorage ctx file indices = some storage →
    storage.value.expr.target? = some register →
    (scope register.name).scalar = storage.value.type

section

variable {A : Arithmetic} {S : LaneArithmetic} {scope : Scope} {m : Memory} {whole : LaneMask}
  {a b : LaneMask → Expr} {u v : Lane → Scalar}

/-! ### Numbers of a type

A conversion may depend on the type, and modifiers are arithmetic. Lane values that are numbers of a
known type are kept by both. -/

/-- An expression has lane values that are numbers of a type. -/
def LaneNumbers (A : Arithmetic) (scope : Scope) (m : Memory) (whole : LaneMask)
    (e : LaneMask → Expr) (t : NumberType) : Prop :=
  ∃ v, LaneValues A scope m whole e v ∧ ∀ lane, (v lane).type? = some t

/-- A conversion reads bits, or makes a new value. -/
theorem convert_eq {source target : NumberType} (h : source ≠ target) :
    (∃ f, bitCast? f = some (source, target) ∧ f.isLaneWise ∧
        ∀ e width, Expr.convert e source target width = .call f [e]) ∨
      ∀ e width, Expr.convert e source target width = .construct ⟨target, width⟩ [e] := by
  -- equal types are excluded; the others are converted by new values or by bits
  cases source <;> cases target <;> first
    | contradiction
    | exact .inr fun _ _ => rfl
    | exact .inl ⟨_, rfl, rfl, fun _ _ => rfl⟩

theorem LaneValues.convert (hA : A.ByLanes S) (ha : LaneValues A scope m whole a u)
    (source target : NumberType) :
    ∃ v, LaneValues A scope m whole (fun part => (a part).convert source target part.width) v ∧
      ((∀ lane, (u lane).type? = some source) → ∀ lane, (v lane).type? = some target) := by
  by_cases h : source = target
  · subst h
    simp only [Expr.convert, if_true]
    exact ⟨u, ha, id⟩
  · rcases convert_eq h with ⟨f, hf, hlaneWise, hconvert⟩ | hconvert
    · simp only [hconvert]
      exact ⟨_, ha.call hA hlaneWise, fun _ lane => S.type?_bitCast hf (u lane)⟩
    · simp only [hconvert]
      exact ⟨_, ha.construct hA target, fun _ lane => S.type?_construct target (u lane)⟩

theorem LaneNumbers.convert (hA : A.ByLanes S) {source : NumberType}
    (ha : LaneNumbers A scope m whole a source) (target : NumberType) :
    LaneNumbers A scope m whole (fun part => (a part).convert source target part.width) target := by
  obtain ⟨u, ha, hu⟩ := ha
  obtain ⟨v, hv, hkeeps⟩ := ha.convert hA source target
  exact ⟨v, hv, hkeeps hu⟩

theorem LaneNumbers.modify (hA : A.ByLanes S) {t : NumberType}
    (ha : LaneNumbers A scope m whole a t) (modifier : OperandModifier) :
    LaneNumbers A scope m whole (fun part => modify modifier (a part)) t := by
  obtain ⟨u, ha, hu⟩ := ha
  cases modifier with
  | none => exact ⟨u, ha, hu⟩
  | neg => exact ⟨_, ha.group.unary hA .negate, fun lane => (S.type?_negate _).trans (hu lane)⟩
  | abs => exact ⟨_, ha.call hA rfl, fun lane => (S.type?_abs _).trans (hu lane)⟩
  | absNeg =>
    exact ⟨_, (ha.call hA rfl).unary hA .negate, fun lane =>
      (S.type?_negate _).trans ((S.type?_abs _).trans (hu lane))⟩

/-! ### Registers

A register is a variable or an element of an array. Where the element is does not depend on the
lane. -/

theorem registerStorage_type_ne_double {c : Container} {file : RegisterFile}
    {indices : List IndexPart} {storage : Traced Storage}
    (h : registerStorage (contextOf c) file indices = some storage) :
    storage.value.type ≠ .double := by
  unfold registerStorage at h
  split at h
  case h_1 => cases h
  case h_2 => -- input, of which there may be one for each vertex
    dsimp only at h
    split at h <;> cases h <;> exact signatureType_ne_double _ _
  case h_3 => -- output
    cases h
    exact signatureType_ne_double _ _
  all_goals
    cases h
    nofun

/-- The value of a whole variable, or of an element of one. -/
theorem exists_eval_of_target? (A : Arithmetic) (scope : Scope) (m : Memory) {e : Expr}
    {register : Target} (h : e.target? = some register) (hwhole : register.lanes = none) :
    ∃ i, e.eval A scope m = m.load scope register.name i := by
  unfold Expr.target? at h
  split at h <;> cases h
  case h_3 | h_4 => cases hwhole -- a selection
  all_goals exact ⟨_, rfl⟩

/-- A component that a variable has. -/
theorem getElem?_load_of_lt {n : Name} (hn : ∀ identifier, n ≠ .sampler identifier) {lane : Lane}
    (h : lane.val < (scope n).lanes) (i : Nat) :
    (m.load scope n i)[lane.val]? = some (.ofWord (scope n).scalar (m ⟨n, i, lane⟩)) := by
  unfold Memory.load
  split
  · next identifier => exact absurd rfl (hn identifier)
  · rw [Scope.places, List.map_map, List.getElem?_map, List.getElem?_take_of_lt h,
      List.getElem?_eq_getElem (by rw [List.length_finRange]; exact lane.isLt)]
    simp

theorem registerLanes_of_picks {components : Components} {pick : Lane → Lane}
    (h : components.Picks pick) (mask : LaneMask) (s : Storage) :
    registerLanes components mask s = s.expr.select (mask.lanes.map pick) := by
  rw [← h.selected]
  obtain ⟨⟨selection, rfl⟩, -⟩ := h
  rfl

theorem laneNumbers_register {c : Container} {o : Operand} {pick : Lane → Lane}
    {register : Target} (hA : A.ByLanes S) (hscope : scope.Fits (contextOf c))
    (hpick : o.components.Picks pick) (hfile : isRegisterFile o.file)
    (hregister : o.register (contextOf c) = some register)
    (hlanes : ∀ lane ∈ whole.lanes, (pick lane).val < (scope register.name).lanes)
    (type : NumberType) :
    LaneNumbers A scope m whole (fun part => (o.source (contextOf c) part type).value) type := by
  obtain ⟨storage, hstorage, htarget⟩ := Option.bind_eq_some_iff.1 hregister
  -- the target of the storage is the register itself
  obtain ⟨register', htarget', hwhole, hn⟩ := exists_target?_of_registerStorage hstorage
  cases htarget.symm.trans htarget'
  obtain ⟨i, hload⟩ := exists_eval_of_target? A scope m htarget hwhole
  have htype : (scope register.name).scalar = storage.value.type := hscope hstorage htarget
  have hselected : LaneNumbers A scope m whole
      (fun part => registerLanes o.components part storage.value) storage.value.type := by
    refine ⟨fun lane => .ofWord storage.value.type (m ⟨register.name, i, pick lane⟩),
      fun part hpart => ?_, fun lane => Scalar.type?_ofWord
        (registerStorage_type_ne_double hstorage) _⟩
    have hsome : (part.lanes.map pick).isEmpty = false := by simpa using hpart.lanes_ne_nil
    -- each picked component is declared, so that it is found
    have hpicked : ∀ lane ∈ part.lanes, (m.load scope register.name i)[(pick lane).val]?
        = some (.ofWord storage.value.type (m ⟨register.name, i, pick lane⟩)) := by
      intro lane hlane
      rw [getElem?_load_of_lt hn (hlanes lane (hpart.subset hlane)) i, htype]
    simp only [registerLanes_of_picks hpick, Expr.select, hsome, Bool.false_eq_true, if_false,
      Expr.eval, hload, List.filterMap_map]
    exact (List.filterMap_congr hpicked).trans (congrFun List.filterMap_eq_map _)
  have hvalue : (fun part => (o.source (contextOf c) part type).value) = fun part =>
      modify o.head.modifier
        ((registerLanes o.components part storage.value).convert storage.value.type type
          part.width) := by
    funext part
    rw [Operand.source_eq, sourceOf, unmodifiedSource_of_isRegisterFile hfile, hstorage]
    rfl
  rw [hvalue]
  exact (hselected.convert hA type).modify hA o.head.modifier

/-! ### Literals

A literal has one value for all lanes or one for each of four. Floats may be spelled out as bits,
which is a call and still a number. -/

theorem exists_valueAt? {values : List α} (h : values.length = 1 ∨ values.length = 4)
    (lane : Lane) :
    ∃ value, Literals.valueAt? values lane.val = some value := by
  unfold Literals.valueAt?
  rcases h with h | h
  · obtain ⟨value, rfl⟩ := List.length_eq_one_iff.1 h
    split <;> exact ⟨_, rfl⟩
  · rw [List.getElem?_eq_getElem (by rw [h]; exact lane.isLt)]
    exact ⟨_, rfl⟩

/-- The value of an expression is a single number of some type. -/
def IsNumber (A : Arithmetic) (scope : Scope) (m : Memory) (e : Expr) (t : NumberType) : Prop :=
  ∃ s : Scalar, e.eval A scope m = [s] ∧ s.type? = some t

theorem isNumber_floatLiteral (hA : A.ByLanes S) (bits : UInt32) :
    IsNumber A scope m (.floatLiteral bits) .float := by
  unfold Expr.floatLiteral
  split
  · exact ⟨.float bits, rfl, rfl⟩
  · refine ⟨S.call .uintBitsToFloat [.uint bits], ?_, S.type?_bitCast rfl _⟩
    have hcall : Function.uintBitsToFloat.isLaneWise := rfl
    exact hA.call hcall (List.cons_ne_nil (fun _ => .uint bits) []) [.x]

theorem isNumber_doubleLiteral (hA : A.ByLanes S) (bits : UInt64) :
    IsNumber A scope m (.doubleLiteral bits) .double := by
  unfold Expr.doubleLiteral
  split
  · exact ⟨.double bits, rfl, rfl⟩
  · generalize bits.toUInt32 = low, (bits >>> 32).toUInt32 = high
    -- the two halves are put together by the function for it
    have hhalves : (Expr.construct ⟨.uint, 2⟩ [.pattern low, .pattern high]).eval A scope m
        = [.uint low, .uint high] :=
      eval_construct_lanes hA [.x, .y]
        (e := fun lane => .pattern (if lane = .x then low else high))
        (u := fun lane => .uint (if lane = .x then low else high)) (fun _ _ => rfl)
        fun _ _ => rfl
    refine ⟨.double (high.toUInt64 <<< 32 ||| low.toUInt64), ?_, rfl⟩
    rw [Expr.eval, Expr.evalAll, Expr.evalAll, hhalves, hA.packDouble2x32]

theorem exists_literal? (hA : A.ByLanes S) (scope : Scope) (m : Memory) {literals : Literals}
    (h : literals.length = 1 ∨ literals.length = 4) (type : NumberType) (lane : Lane) :
    ∃ e, Expr.literal? literals lane type = some e ∧ IsNumber A scope m e type := by
  -- literals of either width, read as any type
  cases literals with
  | bits32 values =>
    obtain ⟨bits, hbits⟩ := exists_valueAt? h lane
    refine ⟨.literal32 type bits, by rw [Expr.literal?, hbits, Option.map_some], ?_⟩
    cases type with
    | float => exact isNumber_floatLiteral hA bits
    | int => exact ⟨_, rfl, rfl⟩
    | uint => exact ⟨_, rfl, rfl⟩
    | double => exact isNumber_doubleLiteral hA _
  | bits64 values =>
    obtain ⟨bits, hbits⟩ := exists_valueAt? h lane
    refine ⟨.literal64 type bits, by rw [Expr.literal?, hbits, Option.map_some], ?_⟩
    cases type with
    | float => exact isNumber_floatLiteral hA _
    | int => exact ⟨_, rfl, rfl⟩
    | uint => exact ⟨_, rfl, rfl⟩
    | double => exact isNumber_doubleLiteral hA bits

theorem laneNumbers_literals {ctx : Context} {o : Operand} {literals : Literals} (hA : A.ByLanes S)
    (hfile : o.file = .immediate32 ∨ o.file = .immediate64) (hliterals : o.literals = some literals)
    (hlength : literals.length = 1 ∨ literals.length = 4) (type : NumberType) :
    LaneNumbers A scope m whole (fun part => (o.source ctx part type).value) type := by
  choose e he s hs htype using fun lane =>
    exists_literal? hA scope m hlength type lane
  have hsource : LaneNumbers A scope m whole
      (fun part => (literalSource (some literals) part type).value) type := by
    refine ⟨s, fun part hpart => ?_, htype⟩
    have hlanes : (part.lanes.filterMap fun lane => Expr.literal? literals lane type)
        = part.lanes.map e := by
      simp only [he]
      exact congrFun List.filterMap_eq_map _
    simp only [literalSource, LaneMask.orFirst_of_ne_zero hpart.ne_zero, hlanes]
    -- A single lane is the literal itself, several are put together.
    split
    · next hnil => exact absurd (List.map_eq_nil_iff.1 hnil) hpart.lanes_ne_nil
    · next hone =>
      obtain ⟨lane, hlane, rfl⟩ := List.map_eq_singleton_iff.1 hone
      rw [hlane]
      exact hs lane
    · rw [Traced.value_pure, List.length_map]
      exact eval_construct_lanes hA part.lanes (fun lane _ => htype lane) fun lane _ => hs lane
  have hvalue : (fun part => (o.source ctx part type).value) = fun part =>
      modify o.head.modifier (literalSource (some literals) part type).value := by
    funext part
    change o.head.file = _ ∨ o.head.file = _ at hfile
    rw [Operand.source_eq, sourceOf, unmodifiedSource, hliterals]
    rcases hfile with hfile | hfile <;> rw [hfile] <;> rfl
  rw [hvalue]
  exact hsource.modify hA o.head.modifier

/-- Sources have lane values, of the type that is asked for. -/
theorem laneNumbers_source {c : Container} {o : Operand} (hA : A.ByLanes S)
    (hscope : scope.Fits (contextOf c)) (ho : o.IsLaneSource (contextOf c) scope whole)
    (type : NumberType) :
    LaneNumbers A scope m whole (fun part => (o.source (contextOf c) part type).value) type := by
  cases ho with
  | register hpick hfile hregister hlanes =>
    exact laneNumbers_register hA hscope hpick hfile hregister hlanes type
  | literals hfile hliterals hlength =>
    exact laneNumbers_literals hA hfile hliterals hlength type

end

end Glsl
end ShaderBytecode
