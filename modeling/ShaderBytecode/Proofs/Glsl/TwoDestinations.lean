import ShaderBytecode.Proofs.Glsl.Grounding
import ShaderBytecode.Proofs.Glsl.ShiftRange

/-!
# Operations with two destinations

A sine with its cosine, a quotient with its remainder, and the two halves of a product are written
by two statements, the second of which reads the sources again. The operation is meant to write both
results at once, each of them made from the registers as they were before it.

    executeAll_twoDestinations : the words of both results are left in the lanes of their
      destinations, and nothing else changes, if the second statement reads nothing that the first
      one writes

If it does, the second result may be made from the first (`not_leavesBoth_dividedInPlace`): in
`udiv r0.x, r1.x, r0.x, r2.x` the remainder is that of the quotient.

What has to be computed is given by words: the sources have words in their lanes
(`Operand.Supplies`), and `WordFunctions.results?` says which two words an operation makes of them.
The high half of a product goes through a variable of its own. It exists in the block of the product
alone, so that neither the sources nor the place of a destination can depend on it.
-/

namespace ShaderBytecode
namespace Glsl

/-! ### Results -/

/-- The whole number that the bits of a word stand for. -/
def wholeNumber (t : NumberType) (w : UInt32) : Int :=
  if t = .int then w.toInt32.toInt else w.toNat

/-- The high half of the product of two whole numbers. -/
def highHalf (t : NumberType) (x y : UInt32) : UInt32 :=
  .ofInt (wholeNumber t x * wholeNumber t y / wordLimit)

/-- A whole number and its word differ by a multiple of all words. -/
theorem wholeNumber_emod (t : NumberType) (w : UInt32) :
    wholeNumber t w % wordLimit = w.toNat := by
  have hlt := w.toNat_lt
  have hint := toInt_toInt32 w
  unfold wholeNumber wordLimit
  split <;> omega

theorem wholeNumber_int_ofInt {n : Int} (hleast : -0x80000000 ≤ n) (hmost : n < 0x80000000) :
    wholeNumber .int (.ofInt n) = n := by
  have hint := toInt_toInt32 (.ofInt n)
  have hnat := toNat_ofInt n
  rw [wholeNumber, if_pos rfl]
  omega

theorem wholeNumber_uint_ofInt {n : Int} (hleast : 0 ≤ n) (hmost : n < wordLimit) :
    wholeNumber .uint (.ofInt n) = n := by
  have hnat := toNat_ofInt n
  rw [wordLimit] at hmost
  rw [wholeNumber, if_neg (by decide)]
  omega

theorem natAbs_wholeNumber_int (w : UInt32) : (wholeNumber .int w).natAbs ≤ 0x80000000 := by
  have hlt := w.toNat_lt
  have hint := toInt_toInt32 w
  rw [wholeNumber, if_pos rfl]
  omega

/-- The two halves together are the product. -/
theorem highHalf_mul_add {t : NumberType} (ht : IsWhole t) (x y : UInt32) :
    wholeNumber t (highHalf t x y) * wordLimit + (x * y).toNat
      = wholeNumber t x * wholeNumber t y := by
  -- the low half is the remainder of the product
  have hlow : ((x * y).toNat : Int) = wholeNumber t x * wholeNumber t y % wordLimit := by
    rw [Int.mul_emod, wholeNumber_emod, wholeNumber_emod, UInt32.toNat_mul]
    rfl
  -- and the high half the quotient, which fits into a word of its type
  have hhigh : wholeNumber t (highHalf t x y) = wholeNumber t x * wholeNumber t y / wordLimit := by
    rcases ht with rfl | rfl
    · have hproduct : (wholeNumber .int x * wholeNumber .int y).natAbs
          ≤ 0x80000000 * 0x80000000 := by
        rw [Int.natAbs_mul]
        exact Nat.mul_le_mul (natAbs_wholeNumber_int x) (natAbs_wholeNumber_int y)
      generalize hp : wholeNumber .int x * wholeNumber .int y = p at hproduct
      rw [highHalf, hp]
      refine wholeNumber_int_ofInt ?_ ?_ <;> rw [wordLimit] <;> omega
    · have hproduct : x.toNat * y.toNat < wordLimit * wordLimit :=
        Nat.mul_lt_mul'' x.toNat_lt y.toNat_lt
      have hp : wholeNumber .uint x * wholeNumber .uint y = (x.toNat * y.toNat : Nat) := rfl
      rw [highHalf, hp]
      rw [wordLimit] at hproduct
      refine wholeNumber_uint_ofInt ?_ ?_ <;> rw [wordLimit] <;> omega
  rw [hhigh, hlow, Int.ediv_mul_add_emod]
/-- Functions of words of which the language leaves something open: what floats become, and what
a division by zero gives. -/
structure WordFunctions where
  sine : UInt32 → UInt32
  cosine : UInt32 → UInt32
  /-- A float limited to the range from zero to one. -/
  limited : UInt32 → UInt32
  quotient : UInt32 → UInt32 → UInt32
  remainder : UInt32 → UInt32 → UInt32
  quotient_of_ne_zero : ∀ {x y}, y ≠ 0 → quotient x y = x / y
  remainder_of_ne_zero : ∀ {x y}, y ≠ 0 → remainder x y = x % y

namespace WordFunctions

variable (F : WordFunctions) (head : OperationHead)

/-- What an operation assigns of a word of some type: floats are limited if it saturates. -/
def saturated (t : NumberType) (w : UInt32) : UInt32 :=
  if head.saturate ∧ t = .float then F.limited w else w

/-- The words of both results for each lane, given those of the sources, if the operation has two
results. -/
def results? (sources : List (Lane → UInt32)) : Option ((Lane → UInt32) × (Lane → UInt32)) :=
  match head.opcode, sources with
  | .sincos, [x] =>
    some (fun lane => F.saturated head .float (F.sine (x lane)),
      fun lane => F.saturated head .float (F.cosine (x lane)))
  | .udiv, [x, y] =>
    some (fun lane => F.quotient (x lane) (y lane), fun lane => F.remainder (x lane) (y lane))
  | .imul, [x, y] =>
    some (fun lane => highHalf .int (x lane) (y lane), fun lane => x lane * y lane)
  | .umul, [x, y] =>
    some (fun lane => highHalf .uint (x lane) (y lane), fun lane => x lane * y lane)
  | _, _ => none

end WordFunctions

/-- The value that has words in some lanes. -/
def Value.ofWords (t : NumberType) (lanes : List Lane) (words : Lane → UInt32) : Value :=
  lanes.map fun lane => .ofWord t (words lane)

/-- What the language promises of the operators and functions that make two results. They work lane
by lane. -/
structure Arithmetic.PairRules (A : Arithmetic) (F : WordFunctions) : Prop where
  sine : ∀ lanes x, A.call .sin [.ofWords .float lanes x]
    = .ofWords .float lanes fun lane => F.sine (x lane)
  cosine : ∀ lanes x, A.call .cos [.ofWords .float lanes x]
    = .ofWords .float lanes fun lane => F.cosine (x lane)
  clamp : ∀ lanes x, A.call .clamp [.ofWords .float lanes x, [.float 0], [.float 0x3F800000]]
    = .ofWords .float lanes fun lane => F.limited (x lane)
  divide : ∀ lanes x y, A.binary .divide (.ofWords .uint lanes x) (.ofWords .uint lanes y)
    = .ofWords .uint lanes fun lane => F.quotient (x lane) (y lane)
  remainder : ∀ lanes x y, A.binary .remainder (.ofWords .uint lanes x) (.ofWords .uint lanes y)
    = .ofWords .uint lanes fun lane => F.remainder (x lane) (y lane)
  multiply : ∀ {t}, IsWhole t → ∀ lanes x y,
    A.binary .multiply (.ofWords t lanes x) (.ofWords t lanes y)
      = .ofWords t lanes fun lane => x lane * y lane
  wide : ∀ {t}, IsWhole t → ∀ lanes x y,
    A.wide (if t = .int then .imulExtended else .umulExtended) (.ofWords t lanes x)
        (.ofWords t lanes y)
      = (.ofWords t lanes fun lane => highHalf t (x lane) (y lane),
          .ofWords t lanes fun lane => x lane * y lane)

/-! ### Places of destinations -/

/-- The place of a component of a register, as it stands before anything is written. -/
def Target.place (A : Arithmetic) (scope : Scope) (m : Memory) (register : Target) (lane : Lane) :
    Place :=
  ⟨register.name, (register.position.map fun e => (e.eval A scope m).index).getD 0, lane⟩

theorem Target.place_injective (A : Arithmetic) (scope : Scope) (m : Memory) (register : Target) :
    Function.Injective (register.place A scope m) :=
  fun _ _ h => congrArg Place.lane h

end Glsl

open Glsl

namespace Operand

/-- An operand can be a destination: it stands for none, or it has a mask of some lanes, or it is a
variable of a single component. -/
inductive IsDestination (ctx : Context) (scope : Scope) (o : Operand) : Prop
  | null : o.isNull → IsDestination ctx scope o
  | masked {mask : LaneMask} : o.components = .four (.mask mask) → mask ≠ 0 →
      IsDestination ctx scope o
  | scalar : o.components = .one →
      (∀ register ∈ o.register ctx, (scope register.name).lanes = 1) → IsDestination ctx scope o

variable (A : Arithmetic) (scope : Scope) (m : Memory) (ctx : Context)

/-- The places that are written where an operand is a destination. -/
def written (o : Operand) : List Glsl.Place :=
  (o.register ctx).toList.flatMap fun register =>
    o.writeMask.lanes.map (register.place A scope m)

/-- The words of a result with the places where they belong. -/
def updates (o : Operand) (words : Lane → UInt32) : List (Glsl.Place × UInt32) :=
  (o.register ctx).toList.flatMap fun register =>
    o.writeMask.lanes.map fun lane => (register.place A scope m lane, words lane)

theorem map_fst_updates (o : Operand) (words : Lane → UInt32) :
    (o.updates A scope m ctx words).map Prod.fst = o.written A scope m ctx := by
  rw [updates, written, List.map_flatMap]
  simp only [List.map_map]
  rfl

end Operand

namespace Glsl

/-! ### The block of a product -/

section

variable {A : Arithmetic} {scope : Scope} {m : Memory} {type : ValueType} {halves : Value × Value}

theorem withHalves_of_not_isHalf {n : Name} (h : n.isHalf = false) :
    scope.withHalves type n = scope n ∧
      ∀ i lane, m.withHalves halves ⟨n, i, lane⟩ = m ⟨n, i, lane⟩ := by
  cases n
  case high | low => cases h
  all_goals exact ⟨rfl, fun _ _ => rfl⟩

theorem load_withHalves {n : Name} (h : n.isHalf = false) (i : Nat) :
    (m.withHalves halves).load (scope.withHalves type) n i = m.load scope n i := by
  obtain ⟨hscope, hwords⟩ := @withHalves_of_not_isHalf scope m type halves n h
  unfold Memory.load
  split
  · rfl
  · simp only [Scope.places, hscope, List.map_map]
    exact List.map_congr_left fun lane _ => congrArg _ (hwords i lane)

mutual

/-- An expression that names neither half has the same value within the block of a product. -/
theorem eval_withHalves : ∀ {e : Expr}, (∀ n ∈ e.names, n.isHalf = false) →
    e.eval A (scope.withHalves type) (m.withHalves halves) = e.eval A scope m
  | .name n, h => load_withHalves (h n List.mem_cons_self) 0
  | .element array position, h => by
    rw [Expr.names, List.forall_mem_append] at h
    cases array
    case name n =>
      simp only [Expr.eval, eval_withHalves h.2]
      exact load_withHalves (h.1 n List.mem_cons_self) _
    all_goals rfl
  | .components vector lanes, h => by
    rw [Expr.eval, Expr.eval, eval_withHalves (e := vector) h]
  | .call f arguments, h => congrArg (A.call f) (evalAll_withHalves h)
  | .construct type arguments, h => congrArg (A.construct type) (evalAll_withHalves h)
  | .unary operator operand, h => congrArg (A.unary operator) (eval_withHalves (e := operand) h)
  | .binary operator left right, h => by
    rw [Expr.names, List.forall_mem_append] at h
    rw [Expr.eval, Expr.eval, eval_withHalves h.1, eval_withHalves h.2]
  | .choose condition yes no, h => by
    rw [Expr.names, List.forall_mem_append, List.forall_mem_append] at h
    rw [Expr.eval, Expr.eval, eval_withHalves h.1.1, eval_withHalves h.1.2, eval_withHalves h.2]
  | .group inner, h => eval_withHalves (e := inner) h
  | .integer _, _ | .unsigned _, _ | .pattern _, _ | .float _, _ | .double _, _ => rfl

theorem evalAll_withHalves : ∀ {es : List Expr}, (∀ n ∈ Expr.namesOfAll es, n.isHalf = false) →
    Expr.evalAll A (scope.withHalves type) (m.withHalves halves) es = Expr.evalAll A scope m es
  | [], _ => rfl
  | e :: es, h => by
    rw [Expr.namesOfAll, List.forall_mem_append] at h
    rw [Expr.evalAll, Expr.evalAll, eval_withHalves h.1, evalAll_withHalves h.2]

end

/-- A target whose names are no halves stands where it does outside of the block. -/
theorem places_withHalves {e : Expr} {t : Target} (h : ∀ n ∈ e.names, n.isHalf = false)
    (ht : e.target? = some t) :
    t.places A (scope.withHalves type) (m.withHalves halves) = t.places A scope m := by
  have hscope {n : Name} (hn : n.isHalf = false) (i : Nat) :
      (scope.withHalves type).places n i = scope.places n i := by
    rw [Scope.places, Scope.places, (@withHalves_of_not_isHalf scope m type halves n hn).1]
  unfold Expr.target? at ht
  split at ht <;> cases ht
  · exact hscope (h _ List.mem_cons_self) 0
  · rw [Expr.names, List.forall_mem_append] at h
    simp only [Target.places, Option.map_some, Option.getD_some, eval_withHalves h.2]
    exact hscope (h.1 _ List.mem_cons_self) _
  · rfl
  · rw [Expr.names, Expr.names, List.forall_mem_append] at h
    simp only [Target.places, Option.map_some, Option.getD_some, eval_withHalves h.2]

/-- The variable of the high half has the high half in it. -/
theorem eval_high {t : NumberType} {mask : LaneMask} {x : Lane → UInt32} (hmask : mask ≠ 0)
    (hhigh : halves.1 = .ofWords t mask.lanes x) :
    (Expr.name .high).eval A (scope.withHalves ⟨t, mask.width⟩) (m.withHalves halves)
      = .ofWords t mask.lanes x := by
  have hload : (Expr.name .high).eval A (scope.withHalves ⟨t, mask.width⟩) (m.withHalves halves)
      = ((List.finRange 4).take mask.width).map fun lane =>
          .ofWord t ((halves.1[lane.val]?.map Scalar.word).getD 0) := by
    rw [Expr.eval]
    change ((scope.withHalves ⟨t, mask.width⟩).places .high 0).map _ = _
    rw [Scope.places, List.map_map]
    rfl
  have hlength := mask.length_lanes_le
  rw [hload, hhigh, LaneMask.width_of_ne_zero hmask]
  refine List.ext_getElem (by simp [Value.ofWords]; omega) fun i hi hi' => ?_
  have hlt : i < mask.lanes.length := by simpa [Value.ofWords] using hi'
  simp [Value.ofWords, List.getElem?_eq_getElem hlt, word_ofWord]

end

/-! ### Statements for a destination -/

/-- A destination has lanes, which are those that its operand writes, and where it stands does not
depend on any half of a product. -/
structure Destination.IsFor (A : Arithmetic) (scope : Scope) (m : Memory) (ctx : Context)
    (dst : Operand) (d : Destination) : Prop where
  mask_ne_zero : d.mask ≠ 0
  type_ne_double : d.type ≠ .double
  not_isHalf : ∀ n ∈ d.target.names, n.isHalf = false
  target : ∃ t, d.target.target? = some t ∧ ∀ words : Lane → UInt32,
    (t.places A scope m).zip (d.mask.lanes.map words) = dst.updates A scope m ctx words

/-- Statements that neither return nor give up the pixel, and that write the words of a result where
they belong. -/
structure Leaves (A : Arithmetic) (scope : Scope) (m : Memory) (ctx : Context) (dst : Operand)
    (words : Lane → UInt32) (statements : List Statement) : Prop where
  isStraight : ∀ s ∈ statements, s.isStraight
  updates : statements.flatMap (Statement.updates A scope m) = dst.updates A scope m ctx words

section

variable {A : Arithmetic} {F : WordFunctions} {scope : Scope} {m : Memory} {c : Container}
  {dst : Operand} {d : Destination} {head : OperationHead} {words : Lane → UInt32}

theorem isFor_of_value_destination (hdst : dst.IsDestination (contextOf c) scope)
    (hd : (destination (contextOf c) dst).value = some d) :
    d.IsFor A scope m (contextOf c) dst := by
  -- what the target names is grounded like any destination
  have hnames : d.target.Grounded (contextOf c) fun _ => True :=
    yields_destination dst (fun _ _ => trivial) d hd
  rw [value_destination] at hd
  obtain ⟨storage, hstorage, rfl⟩ := Option.map_eq_some_iff.1 hd
  have hregisterFile : ¬ dst.isNull := by
    intro hnull
    rw [registerStorage_eq_none_iff.2 (beq_iff_eq.1 hnull)] at hstorage
    cases hstorage
  obtain ⟨register, htarget, hwhole, -⟩ := exists_target?_of_registerStorage hstorage
  have hregister : dst.register (contextOf c) = some register := by
    rw [Operand.register, hstorage]
    exact htarget
  obtain ⟨n, position, _⟩ := register
  subst hwhole
  -- the words go to the lanes of the mask
  have hupdates (words : Lane → UInt32) : dst.updates A scope m (contextOf c) words
      = dst.writeMask.lanes.map fun lane =>
          (Target.place A scope m ⟨n, position, none⟩ lane, words lane) := by
    rw [Operand.updates, hregister]
    exact List.append_nil _
  refine ⟨?_, registerStorage_type_ne_double hstorage, fun n hn => (hnames n hn).2, ?_⟩
  · cases hdst with
    | null hnull => exact absurd hnull hregisterFile
    | masked hmask hne => rw [hmask]; exact hne
    | scalar hone _ => rw [hone]; exact LaneMask.single_ne_zero .x
  · simp only [hupdates, Operand.writeMask]
    cases hdst with
    | null hnull => exact absurd hnull hregisterFile
    | @masked mask hmask hne =>
      have hsome : mask.lanes.isEmpty = false := by simpa using LaneMask.lanes_ne_nil hne
      refine ⟨⟨n, position, some mask.lanes⟩, ?_, fun words => ?_⟩
      · rw [hmask, selected_mask, target?_select htarget rfl, hsome]
        rfl
      · rw [hmask]
        exact List.zip_map'
    | scalar hone hlanes =>
      have hlanes : (scope n).lanes = 1 := hlanes _ hregister
      refine ⟨⟨n, position, none⟩, ?_, fun words => ?_⟩
      · rw [hone]
        exact htarget
      · rw [hone, Components.writeMask, LaneMask.lanes_single_x]
        simp only [Target.places, Scope.places, hlanes]
        rfl

theorem leaves_toDestination {statements : Destination → Traced (List Statement)}
    (hdst : dst.IsDestination (contextOf c) scope)
    (h : ∀ d : Destination, d.IsFor A scope m (contextOf c) dst →
      ∃ s, (statements d).value = [s] ∧ s.isStraight ∧
        s.updates A scope m = dst.updates A scope m (contextOf c) words) :
    Leaves A scope m (contextOf c) dst words
      (toDestination (contextOf c) dst statements).value := by
  cases hd : (destination (contextOf c) dst).value with
  -- the null register: nothing is written, and there is nowhere to write
  | none =>
    have hregister : dst.register (contextOf c) = none := by
      rw [value_destination, Option.map_eq_none_iff] at hd
      rw [Operand.register, hd]
      rfl
    have hnone : (toDestination (contextOf c) dst statements).value = [] := by
      rw [toDestination, Traced.value_bind, hd]
      rfl
    rw [hnone]
    refine ⟨by simp, ?_⟩
    rw [Operand.updates, hregister]
    rfl
  -- a register: the statement writes it
  | some d =>
    obtain ⟨s, hs, hstraight, hupdates⟩ := h d (isFor_of_value_destination hdst hd)
    rw [value_toDestination hd, hs]
    refine ⟨by simpa using hstraight, ?_⟩
    rw [List.flatMap_singleton]
    exact hupdates

/-- Assigning words to a destination writes them where they belong. The value may be computed in the
block of a product, as long as the destination stands where it does outside of it. -/
theorem updates_of_eval {scope' : Scope} {m' : Memory} {e : Expr}
    (hd : d.IsFor A scope m (contextOf c) dst)
    (hsame : ∀ t, d.target.target? = some t → t.places A scope' m' = t.places A scope m)
    (he : e.eval A scope' m' = .ofWords d.type d.mask.lanes words) :
    Assignment.updates A scope' m' ⟨d.target, e⟩ = dst.updates A scope m (contextOf c) words := by
  obtain ⟨t, ht, hplaces⟩ := hd.target
  have hwords : (e.eval A scope' m').map Scalar.word = d.mask.lanes.map words := by
    rw [he, Value.ofWords, List.map_map]
    exact List.map_congr_left fun lane _ => word_ofWord d.type (words lane)
  simp only [Assignment.updates, ht, Option.toList_some, List.flatMap_singleton, hwords,
    hsame t ht, hplaces]

/-- A conversion keeps the words. -/
theorem eval_convert_ofWords (hA : A.Lawful) {source target : NumberType} {mask : LaneMask}
    {e : Expr} (hmask : mask ≠ 0) (hsource : source ≠ .double) (htarget : target ≠ .double)
    (he : e.eval A scope m = .ofWords source mask.lanes words) :
    (e.convert source target mask.width).eval A scope m = .ofWords target mask.lanes words := by
  have hmap (t : NumberType) :
      Value.ofWords t mask.lanes words = (mask.lanes.map words).map (Scalar.ofWord t) := by
    rw [List.map_map]
    rfl
  rw [hmap] at he ⊢
  have hconvert := eval_convert hA target hsource he
  rwa [List.length_map, flatMap_converted htarget, ← LaneMask.width_of_ne_zero hmask] at hconvert

theorem eval_saturated (hF : A.PairRules F) {t : NumberType} {e : Expr} {lanes : List Lane}
    (he : e.eval A scope m = .ofWords t lanes words) :
    (Destination.saturated head.saturate t e).eval A scope m
      = .ofWords t lanes fun lane => F.saturated head t (words lane) := by
  unfold Destination.saturated WordFunctions.saturated
  split
  · next h =>
    obtain ⟨-, rfl⟩ := h
    rw [Expr.eval, Expr.evalAll, he]
    exact hF.clamp lanes words
  · exact he

/-- The assignment of a value that has words in the lanes of every mask. -/
theorem leaves_assignment (hA : A.Lawful) (hF : A.PairRules F) {t : NumberType}
    {statements : Destination → Traced (List Statement)} {e : LaneMask → Expr}
    (hdst : dst.IsDestination (contextOf c) scope) (ht : t ≠ .double)
    (hs : ∀ d, (statements d).value = [assignment d head (e d.mask) t])
    (he : ∀ mask, mask ≠ 0 → (e mask).eval A scope m = .ofWords t mask.lanes words) :
    Leaves A scope m (contextOf c) dst (fun lane => F.saturated head t (words lane))
      (toDestination (contextOf c) dst statements).value := by
  refine leaves_toDestination hdst fun d hd => ⟨_, hs d, rfl, ?_⟩
  have hvalue : (Destination.saturated head.saturate t (e d.mask)).eval A scope m
      = .ofWords t d.mask.lanes fun lane => F.saturated head t (words lane) :=
    eval_saturated hF (he d.mask hd.mask_ne_zero)
  exact updates_of_eval hd (fun _ _ => rfl)
    (eval_convert_ofWords hA hd.mask_ne_zero ht hd.type_ne_double hvalue)

/-- The assignment of the high half of a product. -/
theorem leaves_high (hA : A.Lawful) (hF : A.PairRules F) {t : NumberType}
    {statements : Destination → Traced (List Statement)} {left right : LaneMask → Expr}
    {x y : Lane → UInt32} (hdst : dst.IsDestination (contextOf c) scope) (ht : IsWhole t)
    (hs : ∀ d, (statements d).value = [.wideProduct ⟨t, d.width⟩
      (if t = .int then .imulExtended else .umulExtended) (left d.mask) (right d.mask)
      ⟨d.target, (Expr.name .high).convert t d.type d.width⟩])
    (hleft : ∀ mask, mask ≠ 0 → (left mask).eval A scope m = .ofWords t mask.lanes x)
    (hright : ∀ mask, mask ≠ 0 → (right mask).eval A scope m = .ofWords t mask.lanes y) :
    Leaves A scope m (contextOf c) dst (fun lane => highHalf t (x lane) (y lane))
      (toDestination (contextOf c) dst statements).value := by
  refine leaves_toDestination hdst fun d hd => ⟨_, hs d, rfl, ?_⟩
  have hhalves := hF.wide ht d.mask.lanes x y
  rw [← hleft d.mask hd.mask_ne_zero, ← hright d.mask hd.mask_ne_zero] at hhalves
  have hhigh := @eval_high A scope m _ _ _ _ hd.mask_ne_zero (congrArg Prod.fst hhalves)
  exact updates_of_eval hd (fun _ htarget => places_withHalves hd.not_isHalf htarget)
    (eval_convert_ofWords hA hd.mask_ne_zero ht.ne_double hd.type_ne_double hhigh)

/-! ### Operations with two results -/

/-- The sources of an operation have words in the lanes of every mask. -/
def SourcesSupply (A : Arithmetic) (scope : Scope) (m : Memory) (ctx : Context) (t : NumberType)
    (sources : List Operand) (words : List (Lane → UInt32)) : Prop :=
  List.Forall₂ (fun o x => ∀ mask, mask ≠ 0 → o.Supplies A scope m ctx mask t x) sources words

variable {statements : Destination → Traced (List Statement)} {a b : Operand} {x y : Lane → UInt32}

/-- The assignment of a function of floats. -/
theorem leaves_call (hA : A.Lawful) (hF : A.PairRules F) {f : Function} {g : UInt32 → UInt32}
    (hf : ∀ lanes x, A.call f [.ofWords .float lanes x]
      = .ofWords .float lanes fun lane => g (x lane))
    (hdst : dst.IsDestination (contextOf c) scope)
    (hs : ∀ d, (statements d).value
      = [assignment d head (.call f [(a.source (contextOf c) d.mask .float).value]) .float])
    (ha : ∀ mask, mask ≠ 0 → a.Supplies A scope m (contextOf c) mask .float x) :
    Leaves A scope m (contextOf c) dst (fun lane => F.saturated head .float (g (x lane)))
      (toDestination (contextOf c) dst statements).value := by
  refine leaves_assignment (e := fun mask => .call f [(a.source (contextOf c) mask .float).value])
    hA hF hdst nofun hs fun mask hmask => ?_
  rw [Expr.eval, Expr.evalAll, Expr.evalAll, ha mask hmask]
  exact hf mask.lanes x

/-- The assignment of what an operator makes of whole numbers, which saturating does not change. -/
theorem leaves_binary (hA : A.Lawful) (hF : A.PairRules F) {t : NumberType} (ht : IsWhole t)
    {operator : BinaryOperator} {g : UInt32 → UInt32 → UInt32}
    (hoperator : ∀ lanes x y, A.binary operator (.ofWords t lanes x) (.ofWords t lanes y)
      = .ofWords t lanes fun lane => g (x lane) (y lane))
    (hdst : dst.IsDestination (contextOf c) scope)
    (hs : ∀ d, (statements d).value = [assignment d head
      (.binary operator (a.source (contextOf c) d.mask t).value
        (b.source (contextOf c) d.mask t).value) t])
    (ha : ∀ mask, mask ≠ 0 → a.Supplies A scope m (contextOf c) mask t x)
    (hb : ∀ mask, mask ≠ 0 → b.Supplies A scope m (contextOf c) mask t y) :
    Leaves A scope m (contextOf c) dst (fun lane => g (x lane) (y lane))
      (toDestination (contextOf c) dst statements).value := by
  have hsaturated (w : UInt32) : F.saturated head t w = w := by
    rw [WordFunctions.saturated, if_neg]
    rintro ⟨-, rfl⟩
    rcases ht with ht | ht <;> cases ht
  have hvalue (mask : LaneMask) (hmask : mask ≠ 0) :
      (Expr.binary operator (a.source (contextOf c) mask t).value
        (b.source (contextOf c) mask t).value).eval A scope m
          = .ofWords t mask.lanes fun lane => g (x lane) (y lane) := by
    rw [Expr.eval, ha mask hmask, hb mask hmask]
    exact hoperator mask.lanes x y
  have hleaves := leaves_assignment hA hF hdst ht.ne_double hs hvalue
  simpa only [hsaturated] using hleaves

variable {copies : List Assignment} {outside : Bool} {first second : Operand}
  {sources : List Operand} {inputs : List (Lane → UInt32)} {u v : Lane → UInt32}

theorem leaves_multiplyWide (hA : A.Lawful) (hF : A.PairRules F) {t : NumberType}
    (ht : IsWhole t) (htype : head.opcode.resultType = t)
    (hfirst : first.IsDestination (contextOf c) scope)
    (hsecond : second.IsDestination (contextOf c) scope)
    (ha : ∀ mask, mask ≠ 0 → a.Supplies A scope m (contextOf c) mask t x)
    (hb : ∀ mask, mask ≠ 0 → b.Supplies A scope m (contextOf c) mask t y) :
    ∃ ss ts, (multiplyWide (contextOf c) head first second a b).value = ss ++ ts ∧
      Leaves A scope m (contextOf c) first (fun lane => highHalf t (x lane) (y lane)) ss ∧
      Leaves A scope m (contextOf c) second (fun lane => x lane * y lane) ts := by
  subst htype
  exact ⟨_, _, rfl, leaves_high hA hF hfirst ht (fun _ => rfl) ha hb,
    leaves_binary hA hF ht (hF.multiply ht) hsecond (fun _ => rfl) ha hb⟩

/-- The statements for an operation with two results are those that leave the first and then those
that leave the second. -/
theorem exists_leaves_operation (hA : A.Lawful) (hF : A.PairRules F) (copies : List Assignment)
    (outside : Bool) (hresults : F.results? head inputs = some (u, v))
    (hsources : SourcesSupply A scope m (contextOf c) head.opcode.sourceType sources inputs)
    (hfirst : first.IsDestination (contextOf c) scope)
    (hsecond : second.IsDestination (contextOf c) scope) :
    ∃ ss ts, (operation (contextOf c) copies outside head (first :: second :: sources)).value
        = ss ++ ts ∧
      Leaves A scope m (contextOf c) first u ss ∧ Leaves A scope m (contextOf c) second v ts := by
  unfold WordFunctions.results? at hresults
  split at hresults
  · -- a sine and a cosine
    next x hop =>
    cases hresults
    obtain _ | ⟨ha, _ | _⟩ := hsources
    simp only [operation, OperandRoles.ofList, binary, hop]
    rw [hop] at ha
    exact ⟨_, _, rfl, leaves_call hA hF hF.sine hfirst (fun _ => rfl) ha,
      leaves_call hA hF hF.cosine hsecond (fun _ => rfl) ha⟩
  · -- a quotient and a remainder
    next x y hop =>
    cases hresults
    obtain _ | ⟨ha, _ | ⟨hb, _ | _⟩⟩ := hsources
    simp only [operation, OperandRoles.ofList, ternary, hop]
    rw [hop] at ha hb
    have hwhole : IsWhole .uint := .inr rfl
    exact ⟨_, _, rfl, leaves_binary hA hF hwhole hF.divide hfirst (fun _ => rfl) ha hb,
      leaves_binary hA hF hwhole hF.remainder hsecond (fun _ => rfl) ha hb⟩
  · -- a product of signed words, and below one of unsigned words
    next x y hop =>
    cases hresults
    obtain _ | ⟨ha, _ | ⟨hb, _ | _⟩⟩ := hsources
    simp only [operation, OperandRoles.ofList, ternary, hop]
    rw [hop] at ha hb
    exact leaves_multiplyWide hA hF (.inl rfl) (by rw [hop]; rfl) hfirst hsecond ha hb
  · next x y hop =>
    cases hresults
    obtain _ | ⟨ha, _ | ⟨hb, _ | _⟩⟩ := hsources
    simp only [operation, OperandRoles.ofList, ternary, hop]
    rw [hop] at ha hb
    exact leaves_multiplyWide hA hF (.inr rfl) (by rw [hop]; rfl) hfirst hsecond ha hb
  · cases hresults

/-- Statements leave a word in each lane of two destinations, and change nothing else. -/
def LeavesBoth (A : Arithmetic) (scope : Scope) (m : Memory) (ctx : Context)
    (first second : Operand) (u v : Lane → UInt32) (statements : List Statement) : Prop :=
  ∃ after, executeAll A scope m statements = .running after ∧
    (∀ register ∈ first.register ctx, ∀ lane ∈ first.writeMask.lanes,
      after (register.place A scope m lane) = u lane) ∧
    (∀ register ∈ second.register ctx, ∀ lane ∈ second.writeMask.lanes,
      after (register.place A scope m lane) = v lane) ∧
    ∀ p, p ∉ first.written A scope m ctx → p ∉ second.written A scope m ctx → after p = m p

theorem update_updates {ctx : Context} {register : Target} {lane : Lane}
    (hregister : register ∈ dst.register ctx) (hlane : lane ∈ dst.writeMask.lanes) (m' : Memory) :
    m'.update (dst.updates A scope m ctx words) (register.place A scope m lane) = words lane := by
  rw [Operand.updates, Option.mem_def.1 hregister, Option.toList_some, List.flatMap_singleton]
  exact Memory.update_apply_of_mem (register.place_injective A scope m) words hlane

theorem leavesBoth_of_leaves {ctx : Context} {ss ts : List Statement}
    (hss : Leaves A scope m ctx first u ss) (hts : Leaves A scope m ctx second v ts)
    (hapart : ∀ p ∈ first.written A scope m ctx, p ∉ second.written A scope m ctx)
    (hindependent : Independent A scope m (ss ++ ts)) :
    LeavesBoth A scope m ctx first second u v (ss ++ ts) := by
  have hrun := executeAll_of_independent
    (List.forall_mem_append.2 ⟨hss.isStraight, hts.isStraight⟩) hindependent
  rw [executeAtOnce, List.flatMap_append, hss.updates, hts.updates, Memory.update_append] at hrun
  refine ⟨_, hrun, fun register hregister lane hlane => ?_, fun register hregister lane hlane =>
    update_updates hregister hlane _, fun p hfirst hsecond => ?_⟩
  · -- the second result is written elsewhere
    have hplace : register.place A scope m lane ∈ first.written A scope m ctx := by
      rw [Operand.written, Option.mem_def.1 hregister, Option.toList_some, List.flatMap_singleton]
      exact List.mem_map_of_mem hlane
    rw [Memory.update_apply_of_not_mem, update_updates hregister hlane]
    rw [Operand.map_fst_updates]
    exact hapart _ hplace
  · rw [Memory.update_apply_of_not_mem (by rwa [Operand.map_fst_updates]),
      Memory.update_apply_of_not_mem (by rwa [Operand.map_fst_updates])]

/-- **Two results at once.** Let an operation have two results of the words that its sources have,
and let its destinations share no place. Running its statements one after the other leaves both
results in the lanes of their destinations and changes nothing else, if the second statement reads
nothing that the first one writes. -/
theorem executeAll_twoDestinations (hA : A.Lawful) (hF : A.PairRules F)
    (hresults : F.results? head inputs = some (u, v))
    (hsources : SourcesSupply A scope m (contextOf c) head.opcode.sourceType sources inputs)
    (hfirst : first.IsDestination (contextOf c) scope)
    (hsecond : second.IsDestination (contextOf c) scope)
    (hapart : ∀ p ∈ first.written A scope m (contextOf c),
      p ∉ second.written A scope m (contextOf c))
    (hindependent : Independent A scope m
      (operation (contextOf c) copies outside head (first :: second :: sources)).value) :
    LeavesBoth A scope m (contextOf c) first second u v
      (operation (contextOf c) copies outside head (first :: second :: sources)).value := by
  obtain ⟨ss, ts, hvalue, hss, hts⟩ := exists_leaves_operation hA hF copies outside hresults
    hsources hfirst hsecond
  rw [hvalue] at hindependent ⊢
  exact leavesBoth_of_leaves hss hts hapart hindependent

end

/-! ### A quotient with its remainder -/

/-- Floats stay as they are, and a division by zero gives what it gives for words. -/
def plainFunctions : WordFunctions where
  sine := id
  cosine := id
  limited := id
  quotient x y := x / y
  remainder x y := x % y
  quotient_of_ne_zero _ := rfl
  remainder_of_ne_zero _ := rfl

/-- Whole numbers are combined lane by lane. -/
def Value.zipWords (f : UInt32 → UInt32 → UInt32) : Value → Value → Value :=
  List.zipWith fun s t =>
    match s with
    | .int x => .int (f x t.word)
    | s => .uint (f s.word t.word)

theorem zipWords_ofWords {t : NumberType} (ht : IsWhole t) (f : UInt32 → UInt32 → UInt32)
    (lanes : List Lane) (x y : Lane → UInt32) :
    Value.zipWords f (.ofWords t lanes x) (.ofWords t lanes y)
      = .ofWords t lanes fun lane => f (x lane) (y lane) := by
  rw [Value.zipWords, Value.ofWords, Value.ofWords, List.zipWith_map, List.zipWith_self]
  rcases ht with rfl | rfl <;> rfl

/-- Conversions, sums, products and divisions as the language promises them. -/
def pairArithmetic : Arithmetic where
  call f arguments :=
    match f, arguments with
    | .sin, [v] | .cos, [v] | .clamp, [v, _, _] => v
    | f, arguments => conversions.call f arguments
  construct := conversions.construct
  unary := conversions.unary
  binary operator v w :=
    match operator with
    | .divide => v.zipWords (· / ·) w
    | .remainder => v.zipWords (· % ·) w
    | .multiply => v.zipWords (· * ·) w
    | operator => conversions.binary operator v w
  wide f v w :=
    (v.zipWords (highHalf (if f = .imulExtended then .int else .uint)) w, v.zipWords (· * ·) w)

theorem lawful_pairArithmetic : pairArithmetic.Lawful where
  bitCast {f source target} hf ws := by
    have hcall : pairArithmetic.call f = conversions.call f := by
      unfold bitCast? at hf
      split at hf <;> cases hf <;> rfl
    rw [hcall]
    exact lawful_conversions.bitCast hf ws
  construct := lawful_conversions.construct
  keepsBits := lawful_conversions.keepsBits
  again := lawful_conversions.again
  add := lawful_conversions.add

theorem pairRules_pairArithmetic : pairArithmetic.PairRules plainFunctions where
  sine _ _ := rfl
  cosine _ _ := rfl
  clamp _ _ := rfl
  divide := zipWords_ofWords (.inr rfl) _
  remainder := zipWords_ofWords (.inr rfl) _
  multiply ht := zipWords_ofWords ht _
  wide {t} ht lanes x y := by
    have htype : (if (if t = .int then Function.imulExtended else .umulExtended) = .imulExtended
        then NumberType.int else .uint) = t := by
      rcases ht with rfl | rfl <;> rfl
    simp only [pairArithmetic, htype, zipWords_ofWords ht]

/-- The first component of a temporary register, as a source. -/
def firstOf (number : UInt64) : Operand := tempOperand number (.single .x)

/-- The first component of a temporary register, as a destination. -/
def firstInto (number : UInt64) : Operand := tempOperand number (.mask (.single .x))

theorem supplies_firstOf (number : UInt64) {mask : LaneMask} (hmask : mask ≠ 0) :
    (firstOf number).Supplies pairArithmetic (contextOf bareContainer).scope nineAndTwos
      (contextOf bareContainer) mask .uint
      fun _ => nineAndTwos ⟨.register .temp number.toNat, 0, .x⟩ :=
  supplies_of_denotes lawful_pairArithmetic (declares_scope _)
    (.register (o := firstOf number) rfl (Components.picks_single .x) rfl)
    (Operand.hasWordPositions_of_arrayElement?_eq_none rfl) hmask nofun

/-- The first component of register 0 is divided by that of register 2. -/
theorem sourcesSupply_division :
    SourcesSupply pairArithmetic (contextOf bareContainer).scope nineAndTwos
      (contextOf bareContainer) .uint [firstOf 0, firstOf 2] [fun _ => 9, fun _ => 2] :=
  .cons (fun _ => supplies_firstOf 0) (.cons (fun _ => supplies_firstOf 2) .nil)

theorem isDestination_firstInto (number : UInt64) :
    (firstInto number).IsDestination (contextOf bareContainer)
      (contextOf bareContainer).scope :=
  .masked rfl (LaneMask.single_ne_zero .x)

/-- The division of the first component of register 0 by that of register 2, with the registers
for the quotient and the remainder. -/
def divisionOf (quotient remainder : UInt64) : List Statement :=
  (operation (contextOf bareContainer) [] true (plainHead .udiv)
    [firstInto quotient, firstInto remainder, firstOf 0, firstOf 2]).value

theorem results?_division :
    plainFunctions.results? (plainHead .udiv) [fun _ => 9, fun _ => 2]
      = some (fun _ => 4, fun _ => 1) := by
  have hquotient : (9 / 2 : UInt32) = 4 := by decide
  have hremainder : (9 % 2 : UInt32) = 1 := by decide
  rw [← hquotient, ← hremainder]
  rfl

/-- Nine divided by two, into other registers: the quotient is four and the remainder one. -/
theorem leavesBoth_dividedApart :
    LeavesBoth pairArithmetic (contextOf bareContainer).scope nineAndTwos
      (contextOf bareContainer) (firstInto 1) (firstInto 3) (fun _ => 4) (fun _ => 1)
      (divisionOf 1 3) :=
  executeAll_twoDestinations lawful_pairArithmetic pairRules_pairArithmetic results?_division
    sourcesSupply_division (isDestination_firstInto 1) (isDestination_firstInto 3)
    (by decide) (by decide)

/-- The word at a place when all statements have been run, or else zero. -/
def wordAfter (p : Place) : Outcome → UInt32
  | .running m => m p
  | _ => 0

/-- A division need not leave both results. When the quotient is written over the dividend, the
remainder is that of the quotient. -/
theorem not_leavesBoth_dividedInPlace :
    ¬ ∀ (A : Arithmetic) (F : WordFunctions) (scope : Scope) (m : Memory) (c : Container)
        (copies : List Assignment) (outside : Bool) (head : OperationHead)
        (first second : Operand) (sources : List Operand) (inputs : List (Lane → UInt32))
        (u v : Lane → UInt32),
      A.Lawful → A.PairRules F → F.results? head inputs = some (u, v) →
      SourcesSupply A scope m (contextOf c) head.opcode.sourceType sources inputs →
      first.IsDestination (contextOf c) scope → second.IsDestination (contextOf c) scope →
      (∀ p ∈ first.written A scope m (contextOf c),
        p ∉ second.written A scope m (contextOf c)) →
      LeavesBoth A scope m (contextOf c) first second u v
        (operation (contextOf c) copies outside head (first :: second :: sources)).value := by
  intro h
  have hboth : LeavesBoth pairArithmetic (contextOf bareContainer).scope nineAndTwos
      (contextOf bareContainer) (firstInto 0) (firstInto 1) (fun _ => 4) (fun _ => 1)
      (divisionOf 0 1) :=
    h _ _ _ _ _ _ _ _ _ _ _ _ _ _ lawful_pairArithmetic pairRules_pairArithmetic
      results?_division sourcesSupply_division (isDestination_firstInto 0)
      (isDestination_firstInto 1) (by decide)
  obtain ⟨after, hrun, -, hsecond, -⟩ := hboth
  have hremainder : after ⟨.register .temp 1, 0, .x⟩ = 1 := hsecond _ rfl .x (by decide)
  have hword := congrArg (wordAfter ⟨.register .temp 1, 0, .x⟩) hrun
  rw [wordAfter, hremainder] at hword
  exact absurd hword (by decide)

end Glsl
end ShaderBytecode
