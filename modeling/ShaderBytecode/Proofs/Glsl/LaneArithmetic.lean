import ShaderBytecode.Proofs.Glsl.SourceLanes

/-!
# Arithmetic on single lanes

Most operators and functions work on each component of a vector by itself. `LaneArithmetic` is what
they compute of single components, and an arithmetic is `ByLanes` if it does so in every lane. The
language has a few forms for operands of different widths: a scalar stands for a vector of equal
components beside an operator, as a bound of a range, and where a vector is made of it.

An expression that is lowered for a mask is one expression for each part of the mask. It has
`LaneValues` if whichever part it is lowered for, a lane has the same value:

    LaneValues.call, .binary, …  : what is made of such expressions has lane values again
    LaneValues.ofSingleOrSeveral : even if a single lane and several lanes are lowered differently
    byLanes_vectors              : every arithmetic on single components extends to vectors

Nothing is assumed about what an operator computes, except where lowering relies on it: that a
choice chooses, that a comparison is the same as an operator and as a function, and what the types
are.
-/

namespace ShaderBytecode

/-! ### Parts of a mask

A mask with one lane and a mask with several are lowered differently, so an operation is looked at
for all parts of its mask at once. -/

namespace LaneMask

/-- A part of a mask, with at least one lane. -/
structure IsPart (part whole : LaneMask) : Prop where
  ne_zero : part ≠ 0
  subset : part.lanes ⊆ whole.lanes

theorem lanes_single : ∀ lane : Lane, (single lane).lanes = [lane] := by decide

theorem single_ne_zero : ∀ lane : Lane, single lane ≠ 0 := by decide

theorem isPart_self {whole : LaneMask} (h : whole ≠ 0) : whole.IsPart whole :=
  ⟨h, List.Subset.refl _⟩

theorem isPart_single {whole : LaneMask} {lane : Lane} (h : lane ∈ whole.lanes) :
    (single lane).IsPart whole where
  ne_zero := single_ne_zero lane
  subset := by
    rw [lanes_single]
    exact List.cons_subset.2 ⟨h, List.nil_subset _⟩

variable {part whole : LaneMask}

theorem IsPart.width (h : part.IsPart whole) : part.width = part.lanes.length :=
  width_of_ne_zero h.ne_zero

theorem IsPart.lanes_ne_nil (h : part.IsPart whole) : part.lanes ≠ [] :=
  LaneMask.lanes_ne_nil h.ne_zero

end LaneMask

namespace Glsl

/-! ### Single components

The number type of a component is not stored anywhere in a shader. It is part of the value, and is
kept so that conversions know what to do. -/

namespace Scalar

instance : Inhabited Scalar := ⟨.truth false⟩

/-- The number type of a component, if it is a number. -/
def type? : Scalar → Option NumberType
  | float _ => some .float
  | int _ => some .int
  | uint _ => some .uint
  | double _ => some .double
  | truth _ | sampler _ _ => none

theorem type?_ofWord {t : NumberType} (h : t ≠ .double) (w : UInt32) :
    (ofWord t w).type? = some t := by
  cases t with
  | double => contradiction
  | _ => rfl

end Scalar

/-- An operator that compares two values. -/
def BinaryOperator.isComparison : BinaryOperator → Bool
  | equal | notEqual | less | greaterEqual => true
  | _ => false

/-- The operator by which a function compares two vectors in each lane. -/
def comparison? : Function → Option BinaryOperator
  | .equal => some .equal
  | .notEqual => some .notEqual
  | .lessThan => some .less
  | .greaterThanEqual => some .greaterEqual
  | _ => none

/-- A function computes every component of its result from the same components of its arguments. -/
def Function.isLaneWise : Function → Bool
  | floatBitsToInt | floatBitsToUint | intBitsToFloat | uintBitsToFloat
  | abs | sign | floor | ceil | fract | roundEven | sqrt | inversesqrt | exp2 | log2 | sin | cos
  | min | max | mix | fma | equal | notEqual | lessThan | greaterThanEqual
  | dFdx | dFdy | dFdxCoarse | dFdyCoarse | dFdxFine | dFdyFine
  | bitfieldReverse | bitfieldExtract | bitCount | findLSB => true
  | _ => false

/-- What operators and functions compute of single components. Any functions will do that have the
types of the language, and for which choosing and comparing are what they are called. -/
structure LaneArithmetic where
  call : Function → List Scalar → Scalar
  construct : NumberType → Scalar → Scalar
  unary : UnaryOperator → Scalar → Scalar
  binary : BinaryOperator → Scalar → Scalar → Scalar
  type?_construct : ∀ t s, (construct t s).type? = some t
  construct_of_type? : ∀ {t s}, s.type? = some t → construct t s = s
  type?_bitCast : ∀ {f source target}, bitCast? f = some (source, target) →
    ∀ s, (call f [s]).type? = some target
  type?_negate : ∀ s, (unary .negate s).type? = s.type?
  type?_abs : ∀ s, (call .abs [s]).type? = s.type?
  type?_bitfieldExtract : ∀ s offset width,
    (call .bitfieldExtract [s, offset, width]).type? = s.type?
  mix : ∀ no yes b, call .mix [no, yes, .truth b] = if b then yes else no
  /-- A comparison is an operator and a function, which agree. -/
  compare : ∀ {f operator}, comparison? f = some operator →
    ∀ s s', ∃ b, call f [s, s'] = .truth b ∧ binary operator s s' = .truth b

/-- What is computed of vectors is computed lane by lane. -/
structure Arithmetic.ByLanes (A : Arithmetic) (S : LaneArithmetic) : Prop where
  call : ∀ {f : Function}, f.isLaneWise → ∀ {values : List (Lane → Scalar)}, values ≠ [] →
    ∀ lanes : List Lane, A.call f (values.map lanes.map)
      = lanes.map fun lane => S.call f (values.map fun v => v lane)
  /-- Every component is limited by the same bounds. -/
  clamp : ∀ (lanes : List Lane) v low high, A.call .clamp [lanes.map v, [low], [high]]
    = lanes.map fun lane => S.call .clamp [v lane, low, high]
  /-- The bits of a double, the low half in front. -/
  packDouble2x32 : ∀ low high, A.call .packDouble2x32 [[.uint low, .uint high]]
    = [.double (high.toUInt64 <<< 32 ||| low.toUInt64)]
  /-- A value is made from as many components as it has lanes. -/
  construct : ∀ t (lanes : List Lane) v {arguments : List Value},
    arguments.flatten = lanes.map v →
      A.construct ⟨t, lanes.length⟩ arguments = lanes.map fun lane => S.construct t (v lane)
  /-- A value is made from a single component. -/
  fill : ∀ t width s, A.construct ⟨t, width⟩ [[s]] = List.replicate width (S.construct t s)
  unary : ∀ operator (lanes : List Lane) v,
    A.unary operator (lanes.map v) = lanes.map fun lane => S.unary operator (v lane)
  /-- Vectors are compared by functions, and not by operators. -/
  binary : ∀ operator (lanes : List Lane) v v',
    operator.isComparison = false ∨ lanes.length = 1 →
      A.binary operator (lanes.map v) (lanes.map v')
        = lanes.map fun lane => S.binary operator (v lane) (v' lane)
  scalarLeft : ∀ {operator : BinaryOperator}, operator.isComparison = false →
    ∀ {lanes : List Lane}, lanes ≠ [] → ∀ s v, A.binary operator [s] (lanes.map v)
      = lanes.map fun lane => S.binary operator s (v lane)
  scalarRight : ∀ {operator : BinaryOperator}, operator.isComparison = false →
    ∀ {lanes : List Lane}, lanes ≠ [] → ∀ v s, A.binary operator (lanes.map v) [s]
      = lanes.map fun lane => S.binary operator (v lane) s

/-! ### Vectors from single components

That there is such an arithmetic for vectors at all shows that the conditions of `ByLanes` do not
contradict each other. -/

/-- The component of a value for a lane; a scalar has the same for all of them. -/
def Value.component (v : Value) (i : Nat) : Scalar :=
  match v with
  | [s] => s
  | v => v[i]?.getD default

/-- What is computed of vectors, given what is of single components. -/
def LaneArithmetic.vectors (S : LaneArithmetic) : Arithmetic where
  call f arguments :=
    match f, arguments with
    | .packDouble2x32, [[.uint low, .uint high]] =>
      [.double (high.toUInt64 <<< 32 ||| low.toUInt64)]
    | f, arguments => (List.range (arguments.headD []).length).map fun i =>
      S.call f (arguments.map fun v => v.component i)
  construct type arguments :=
    match arguments.flatten with
    | [s] => List.replicate type.lanes (S.construct type.scalar s)
    | components => components.map (S.construct type.scalar)
  unary operator v := v.map (S.unary operator)
  binary operator v w := (List.range (max v.length w.length)).map fun i =>
    S.binary operator (v.component i) (w.component i)
  wide _ _ _ := ([], [])

theorem component_map {lanes : List Lane} (v : Lane → Scalar) {i : Nat} (h : i < lanes.length) :
    Value.component (lanes.map v) i = v lanes[i] := by
  unfold Value.component
  split
  · next s hone =>
    obtain ⟨lane, rfl, rfl⟩ := List.map_eq_singleton_iff.1 hone
    rw [List.getElem_singleton]
  · rw [List.getElem?_map, List.getElem?_eq_getElem h]
    rfl

/-- A list over the indices of lanes is one over the lanes. -/
theorem map_range_length {lanes : List Lane} {f : Nat → α} {g : Lane → α}
    (h : ∀ i (hi : i < lanes.length), f i = g lanes[i]) :
    (List.range lanes.length).map f = lanes.map g := by
  refine List.ext_getElem (by simp) fun i hi hi' => ?_
  rw [List.length_map] at hi'
  rw [List.getElem_map, List.getElem_map, List.getElem_range, h i hi']

theorem byLanes_vectors (S : LaneArithmetic) : S.vectors.ByLanes S where
  call {f} hf {values} hvalues lanes := by
    obtain ⟨v, rest, rfl⟩ := List.exists_cons_of_ne_nil hvalues
    simp only [LaneArithmetic.vectors]
    split
    · cases hf
    · have hlength : (((v :: rest).map lanes.map).headD []).length = lanes.length :=
        List.length_map v
      rw [hlength]
      refine map_range_length fun i hi => ?_
      rw [List.map_map]
      exact congrArg (S.call _) (List.map_congr_left fun v _ => component_map v hi)
  clamp lanes v low high := by
    change (List.range (lanes.map v).length).map _ = _
    rw [List.length_map]
    refine map_range_length fun i hi => ?_
    rw [List.map_cons, component_map v hi]
    rfl
  packDouble2x32 low high := rfl
  construct t lanes v arguments h := by
    simp only [LaneArithmetic.vectors, h]
    split
    · next s hone =>
      obtain ⟨lane, rfl, rfl⟩ := List.map_eq_singleton_iff.1 hone
      rfl
    · rw [List.map_map]
      rfl
  fill t width s := rfl
  unary operator lanes v := List.map_map
  binary operator lanes v v' _ := by
    simp only [LaneArithmetic.vectors, List.length_map, Nat.max_self]
    refine map_range_length fun i hi => ?_
    rw [component_map v hi, component_map v' hi]
  scalarLeft {operator} _ {lanes} hlanes s v := by
    have hlength : max [s].length (lanes.map v).length = lanes.length := by
      rw [List.length_map]
      exact Nat.max_eq_right (List.length_pos_iff.2 hlanes)
    simp only [LaneArithmetic.vectors, hlength]
    refine map_range_length fun i hi => ?_
    rw [component_map v hi]
    rfl
  scalarRight {operator} _ {lanes} hlanes v s := by
    have hlength : max (lanes.map v).length [s].length = lanes.length := by
      rw [List.length_map]
      exact Nat.max_eq_left (List.length_pos_iff.2 hlanes)
    simp only [LaneArithmetic.vectors, hlength]
    refine map_range_length fun i hi => ?_
    rw [component_map v hi]
    rfl

/-! ### Lane values

Expressions are built up, and with them their lane values. Each lemma is one way of building. -/

/-- The components of an expression, which is lowered for a part of a mask, are the values of the
lanes in this part. -/
def LaneValues (A : Arithmetic) (scope : Scope) (m : Memory) (whole : LaneMask)
    (e : LaneMask → Expr) (v : Lane → Scalar) : Prop :=
  ∀ part : LaneMask, part.IsPart whole → (e part).eval A scope m = part.lanes.map v

section

variable {A : Arithmetic} {S : LaneArithmetic} {scope : Scope} {m : Memory} {whole : LaneMask}
  {a b c : LaneMask → Expr} {u v w : Lane → Scalar}

namespace LaneValues

/-- The value for a part that is a single lane. -/
theorem single {part : LaneMask} {lane : Lane} (ha : LaneValues A scope m whole a u)
    (hpart : part.IsPart whole) (hlane : part.lanes = [lane]) :
    (a part).eval A scope m = [u lane] := by
  rw [ha part hpart, hlane, List.map_singleton]

theorem group (ha : LaneValues A scope m whole a u) :
    LaneValues A scope m whole (fun part => .group (a part)) u :=
  fun part hpart => ha part hpart

theorem call (hA : A.ByLanes S) {f : Function} (hf : f.isLaneWise)
    (ha : LaneValues A scope m whole a u) :
    LaneValues A scope m whole (fun part => .call f [a part]) fun lane => S.call f [u lane] := by
  intro part hpart
  simp only [Expr.eval, Expr.evalAll, ha part hpart]
  exact hA.call hf (List.cons_ne_nil u []) part.lanes

theorem call₂ (hA : A.ByLanes S) {f : Function} (hf : f.isLaneWise)
    (ha : LaneValues A scope m whole a u) (hb : LaneValues A scope m whole b v) :
    LaneValues A scope m whole (fun part => .call f [a part, b part])
      fun lane => S.call f [u lane, v lane] := by
  intro part hpart
  simp only [Expr.eval, Expr.evalAll, ha part hpart, hb part hpart]
  exact hA.call hf (List.cons_ne_nil u [v]) part.lanes

theorem call₃ (hA : A.ByLanes S) {f : Function} (hf : f.isLaneWise)
    (ha : LaneValues A scope m whole a u) (hb : LaneValues A scope m whole b v)
    (hc : LaneValues A scope m whole c w) :
    LaneValues A scope m whole (fun part => .call f [a part, b part, c part])
      fun lane => S.call f [u lane, v lane, w lane] := by
  intro part hpart
  simp only [Expr.eval, Expr.evalAll, ha part hpart, hb part hpart, hc part hpart]
  exact hA.call hf (List.cons_ne_nil u [v, w]) part.lanes

/-- Components are limited to the range from zero to one. -/
theorem clamp (hA : A.ByLanes S) (ha : LaneValues A scope m whole a u) :
    LaneValues A scope m whole (fun part => .call .clamp [a part, .zero, .one])
      fun lane => S.call .clamp [u lane, .float 0, .float 0x3F800000] := by
  intro part hpart
  simp only [Expr.eval, Expr.evalAll, ha part hpart, Expr.zero, Expr.one]
  exact hA.clamp ..

theorem construct (hA : A.ByLanes S) (t : NumberType) (ha : LaneValues A scope m whole a u) :
    LaneValues A scope m whole (fun part => .construct ⟨t, part.width⟩ [a part])
      fun lane => S.construct t (u lane) := by
  intro part hpart
  rw [Expr.eval, hpart.width]
  refine hA.construct t part.lanes u ?_
  rw [Expr.evalAll, Expr.evalAll, List.flatten_singleton, ha part hpart]

/-- A vector of equal components, which are of its type. -/
theorem fill (hA : A.ByLanes S) {e : Expr} {s : Scalar} {t : NumberType} (hs : s.type? = some t)
    (he : e.eval A scope m = [s]) :
    LaneValues A scope m whole (fun part => .construct ⟨t, part.width⟩ [e]) fun _ => s := by
  intro part hpart
  rw [Expr.eval, hpart.width, Expr.evalAll, Expr.evalAll, he, hA.fill, S.construct_of_type? hs,
    List.map_const']

theorem unary (hA : A.ByLanes S) (operator : UnaryOperator)
    (ha : LaneValues A scope m whole a u) :
    LaneValues A scope m whole (fun part => .unary operator (a part))
      fun lane => S.unary operator (u lane) := by
  intro part hpart
  rw [Expr.eval, ha part hpart]
  exact hA.unary operator part.lanes u

theorem binary (hA : A.ByLanes S) {operator : BinaryOperator} (ho : operator.isComparison = false)
    (ha : LaneValues A scope m whole a u) (hb : LaneValues A scope m whole b v) :
    LaneValues A scope m whole (fun part => .binary operator (a part) (b part))
      fun lane => S.binary operator (u lane) (v lane) := by
  intro part hpart
  rw [Expr.eval, ha part hpart, hb part hpart]
  exact hA.binary operator part.lanes u v (.inl ho)

theorem scalarLeft (hA : A.ByLanes S) {operator : BinaryOperator}
    (ho : operator.isComparison = false) {e : Expr} {s : Scalar} (he : e.eval A scope m = [s])
    (ha : LaneValues A scope m whole a u) :
    LaneValues A scope m whole (fun part => .binary operator e (a part))
      fun lane => S.binary operator s (u lane) := by
  intro part hpart
  rw [Expr.eval, he, ha part hpart]
  exact hA.scalarLeft ho hpart.lanes_ne_nil s u

theorem scalarRight (hA : A.ByLanes S) {operator : BinaryOperator}
    (ho : operator.isComparison = false) {e : Expr} {s : Scalar} (he : e.eval A scope m = [s])
    (ha : LaneValues A scope m whole a u) :
    LaneValues A scope m whole (fun part => .binary operator (a part) e)
      fun lane => S.binary operator (u lane) s := by
  intro part hpart
  rw [Expr.eval, he, ha part hpart]
  exact hA.scalarRight ho hpart.lanes_ne_nil u s

/-- The value for a single lane may be lowered in another way than that for several lanes. -/
theorem ofSingleOrSeveral
    (hsingle : ∀ part lane, part.IsPart whole → part.lanes = [lane] →
      (a part).eval A scope m = [u lane])
    (hseveral : LaneValues A scope m whole b u) :
    LaneValues A scope m whole (fun part => if part.width = 1 then a part else b part) u := by
  intro part hpart
  dsimp only
  split
  · next hwidth =>
    obtain ⟨lane, hlane⟩ := List.length_eq_one_iff.1 (hpart.width ▸ hwidth)
    rw [hsingle part lane hpart hlane, hlane, List.map_singleton]
  · exact hseveral part hpart

/-- One of two values by a comparison, which for a single lane is made by an operator and for
several lanes by a function. The values, too, may be written differently for a single lane. -/
theorem choose (hA : A.ByLanes S) {f : Function} {operator : BinaryOperator}
    (hf : comparison? f = some operator) {b₁ yes₁ no₁ yes no : LaneMask → Expr}
    {y n : Lane → Scalar}
    (ha : LaneValues A scope m whole a u) (hb : LaneValues A scope m whole b v)
    (hyes : LaneValues A scope m whole yes y) (hno : LaneValues A scope m whole no n)
    (hb₁ : ∀ part lane, part.IsPart whole → part.lanes = [lane] →
      (b₁ part).eval A scope m = [v lane])
    (hyes₁ : ∀ part lane, part.IsPart whole → part.lanes = [lane] →
      (yes₁ part).eval A scope m = [y lane])
    (hno₁ : ∀ part lane, part.IsPart whole → part.lanes = [lane] →
      (no₁ part).eval A scope m = [n lane]) :
    ∃ w, LaneValues A scope m whole
      (fun part => if part.width = 1 then
          .choose (.binary operator (a part) (b₁ part)) (yes₁ part) (no₁ part)
        else .call .mix [no part, yes part, .call f [a part, b part]]) w := by
  have hlaneWise : f.isLaneWise := by
    unfold comparison? at hf
    split at hf <;> first | rfl | cases hf
  refine ⟨_, ofSingleOrSeveral (fun part lane hpart hlane => ?_)
    (call₃ hA rfl hno hyes (call₂ hA hlaneWise ha hb))⟩
  -- both forms of the comparison give one truth value
  obtain ⟨holds, hcall, hbinary⟩ := S.compare hf (u lane) (v lane)
  have hcondition : (Expr.binary operator (a part) (b₁ part)).eval A scope m = [.truth holds] := by
    have heval := hA.binary operator [lane] u v (.inr rfl)
    rw [List.map_singleton, List.map_singleton, List.map_singleton, hbinary] at heval
    rw [Expr.eval, ha.single hpart hlane, hb₁ part lane hpart hlane, heval]
  rw [Expr.eval, hcondition, hcall, S.mix, hyes₁ part lane hpart hlane,
    hno₁ part lane hpart hlane]
  cases holds <;> rfl

end LaneValues

/-- A value that is put together from those of the lanes, which are of its type. -/
theorem eval_construct_lanes (hA : A.ByLanes S) {t : NumberType} (lanes : List Lane)
    {e : Lane → Expr} (hu : ∀ lane ∈ lanes, (u lane).type? = some t)
    (he : ∀ lane ∈ lanes, (e lane).eval A scope m = [u lane]) :
    (Expr.construct ⟨t, lanes.length⟩ (lanes.map e)).eval A scope m = lanes.map u := by
  -- the parts are single components, so that putting them together gives their list
  have hflatten : (Expr.evalAll A scope m (lanes.map e)).flatten = lanes.map u := by
    rw [flatten_evalAll_map, List.map_eq_flatMap]
    exact List.flatMap_congr he
  rw [Expr.eval, hA.construct t lanes u hflatten]
  exact List.map_congr_left fun lane hlane => S.construct_of_type? (hu lane hlane)

end

end Glsl
end ShaderBytecode
