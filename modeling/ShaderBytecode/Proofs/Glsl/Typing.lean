import Mathlib.Data.List.Basic
import ShaderBytecode.Glsl.Interface
import ShaderBytecode.Proofs.Glsl.Execution

/-!
# Types of expressions and what conversions keep

Registers have no types of their own, while the variables that stand for them do, so an operand is
read with a conversion from the type of its variable. `HasType` gives the types of the expressions
that reading needs, and `Arithmetic.Lawful` says what the language promises of its conversions: bits
are reinterpreted lane by lane, and a value that is made from others takes their components in their
order.

    Holds.convert : Holds A scope m e source ws → Holds A scope m (e.convert …) target ws

`Holds` puts both together: the type of an expression and the words in its lanes. No conversion
between the types of 32 bits changes a word.
-/

namespace ShaderBytecode
namespace Glsl

/-! ### Types

The rules are given for the expressions that sources are lowered to, and only those: a name or an
element of an array, components of these, literals, conversions, vectors of lanes, and the sums that
positions in arrays are. -/

/-- A variable is an array. -/
def Name.isArray : Name → Bool
  | .register .indexableTemp _ | .immediateBuffer | .bufferRows _ => true
  | _ => false

namespace Expr

/-- Components and elements can be named behind the text of an expression without brackets. -/
def isPostfix : Expr → Bool
  | name _ | element _ _ | components _ _ | call _ _ | construct _ _ | group _ => true
  | _ => false

/-- The text of an expression can stand beside an operator without brackets. -/
def isOperand : Expr → Bool
  | integer _ | unsigned _ | pattern _ | float _ | double _ => true
  | e => e.isPostfix

end Expr

/-- The type that a function reads the bits of its argument as, and the one it gives them. -/
def bitCast? : Function → Option (NumberType × NumberType)
  | .floatBitsToInt => some (.float, .int)
  | .floatBitsToUint => some (.float, .uint)
  | .intBitsToFloat => some (.int, .float)
  | .uintBitsToFloat => some (.uint, .float)
  | _ => none

/-- A value of one type can be made from one of the other without a change of its bits. -/
def KeepsBits (source target : NumberType) : Prop :=
  source = target ∧ target ≠ .double ∨ (source = .int ∧ target = .uint) ∨
    (source = .uint ∧ target = .int)

/-- The type of an expression whose text, which has no brackets but those of the expression, reads
as the expression. Rules are given for what registers and literals are lowered to. -/
inductive HasType (scope : Scope) : Expr → ValueType → Prop
  | name {n : Name} : n.isArray = false → HasType scope (.name n) (scope n)
  | element {n : Name} {position : Expr} : n.isArray → HasType scope position ⟨.int, 1⟩ →
      HasType scope (.element (.name n) position) (scope n)
  | components {vector : Expr} {t : NumberType} {width : Nat} {lanes : List Lane} :
      vector.isPostfix → HasType scope vector ⟨t, width⟩ → (∀ lane ∈ lanes, lane.val < width) →
      lanes ≠ [] → lanes.length ≤ 4 →
      HasType scope (.components vector lanes) ⟨t, lanes.length⟩
  /-- The bits of a number without its sign fit into a word. -/
  | integer {n : Int} : n.natAbs < wordLimit → HasType scope (.integer n) ⟨.int, 1⟩
  | unsigned {n : UInt32} : HasType scope (.unsigned n) ⟨.uint, 1⟩
  | pattern {n : UInt32} : HasType scope (.pattern n) ⟨.uint, 1⟩
  | float {bits : UInt32} : HasType scope (.float bits) ⟨.float, 1⟩
  | bitCast {f : Function} {source target : NumberType} {width : Nat} {e : Expr} :
      bitCast? f = some (source, target) → HasType scope e ⟨source, width⟩ →
      HasType scope (.call f [e]) ⟨target, width⟩
  /-- A value is made from another that has as many lanes. -/
  | reconstruct {source target : NumberType} {width : Nat} {e : Expr} :
      KeepsBits source target → HasType scope e ⟨source, width⟩ →
      HasType scope (.construct ⟨target, width⟩ [e]) ⟨target, width⟩
  /-- A vector is made from its lanes. -/
  | construct {t : NumberType} {es : List Expr} :
      (∀ e ∈ es, HasType scope e ⟨t, 1⟩) → 2 ≤ es.length → es.length ≤ 4 →
      HasType scope (.construct ⟨t, es.length⟩ es) ⟨t, es.length⟩
  | add {left right : Expr} : left.isOperand → right.isOperand →
      HasType scope left ⟨.int, 1⟩ → HasType scope right ⟨.int, 1⟩ →
      HasType scope (.binary .add left right) ⟨.int, 1⟩

/-! ### What the language promises -/

/-- What the language promises of conversions and of sums of whole numbers. -/
structure Arithmetic.Lawful (A : Arithmetic) : Prop where
  /-- The bits of each lane are read as another type. -/
  bitCast : ∀ {f source target}, bitCast? f = some (source, target) → ∀ ws : List UInt32,
    A.call f [ws.map (.ofWord source)] = ws.map (.ofWord target)
  /-- A value is made from as many components as it has lanes, each converted by itself. -/
  construct : ∀ {t : NumberType} {width : Nat} {arguments : List Value},
    arguments.flatten.length = width →
    A.construct ⟨t, width⟩ arguments = arguments.flatten.flatMap fun s => A.construct ⟨t, 1⟩ [[s]]
  /-- Whole numbers keep their bits when their signs are read differently. -/
  keepsBits : ∀ {source target}, KeepsBits source target → ∀ w,
    A.construct ⟨target, 1⟩ [[.ofWord source w]] = [.ofWord target w]
  /-- A component that is made has its type, so that it is kept when it is made again. -/
  again : ∀ t s, ∃ s', A.construct ⟨t, 1⟩ [[s]] = [s'] ∧ A.construct ⟨t, 1⟩ [[s']] = [s']
  /-- Sums of whole numbers wrap around. -/
  add : ∀ a b, A.binary .add [.int a] [.int b] = [.int (a + b)]

/-! ### Words in the lanes of an expression

A register of four components holds four words, and its variable shows them through a type. The
words stay the same when the type changes; that is what the conversions are for, and why a read can
be described without saying which type the variable was declared with. -/

section

variable {A : Arithmetic} {scope : Scope} {m : Memory}

/-- An expression has a number type, and its lanes hold some words. -/
structure Holds (A : Arithmetic) (scope : Scope) (m : Memory) (e : Expr) (t : NumberType)
    (ws : List UInt32) : Prop where
  hasType : HasType scope e ⟨t, ws.length⟩
  eval : e.eval A scope m = ws.map (Scalar.ofWord t)

theorem eval_bitCast (hA : A.Lawful) {f : Function} {source target : NumberType} {e : Expr}
    {ws : List UInt32} (hf : bitCast? f = some (source, target))
    (h : e.eval A scope m = ws.map (Scalar.ofWord source)) :
    (Expr.call f [e]).eval A scope m = ws.map (Scalar.ofWord target) := by
  rw [Expr.eval, Expr.evalAll, Expr.evalAll, h]
  exact hA.bitCast hf ws

/-- A value that is made from components of its own type, or of the other type of whole numbers, has
their words. -/
theorem eval_construct_of_keepsBits (hA : A.Lawful) {source target : NumberType}
    {arguments : List Value} {ws : List UInt32} (hkeeps : KeepsBits source target)
    (h : arguments.flatten = ws.map (Scalar.ofWord source)) :
    A.construct ⟨target, ws.length⟩ arguments = ws.map (Scalar.ofWord target) := by
  rw [hA.construct (by rw [h, List.length_map]), h, List.flatMap_map, List.map_eq_flatMap]
  simp only [hA.keepsBits hkeeps]

/-- A word that is read as another type. Doubles are no words, they are made from what the word
stands for. -/
def Arithmetic.converted (A : Arithmetic) (source target : NumberType) (w : UInt32) : Value :=
  if target = .double then A.construct ⟨.double, 1⟩ [[.ofWord source w]] else [.ofWord target w]

theorem flatMap_converted {source target : NumberType} (h : target ≠ .double) (ws : List UInt32) :
    ws.flatMap (A.converted source target) = ws.map (Scalar.ofWord target) := by
  have hone : A.converted source target = fun w => [.ofWord target w] := funext fun w => if_neg h
  rw [hone, List.map_eq_flatMap]

/-- A conversion reads every word by itself. -/
theorem eval_convert (hA : A.Lawful) {source : NumberType} (target : NumberType) {e : Expr}
    {ws : List UInt32} (hsource : source ≠ .double)
    (h : e.eval A scope m = ws.map (Scalar.ofWord source)) :
    (e.convert source target ws.length).eval A scope m
      = ws.flatMap (A.converted source target) := by
  have hflatten : [e.eval A scope m].flatten = ws.map (Scalar.ofWord source) := by
    rw [List.flatten_singleton, h]
  -- Doubles are made from every other type; between the others bits are cast or kept.
  by_cases htarget : target = .double
  · have hconvert : e.convert source .double ws.length = .construct ⟨.double, ws.length⟩ [e] := by
      cases source <;> first | contradiction | rfl
    subst htarget
    rw [hconvert, Expr.eval, Expr.evalAll, Expr.evalAll, hA.construct (by simp [hflatten]),
      hflatten, List.flatMap_map]
    rfl
  · have hreconstruct (hkeeps : KeepsBits source target) :
        (Expr.construct ⟨target, ws.length⟩ [e]).eval A scope m
          = ws.map (Scalar.ofWord target) := by
      rw [Expr.eval, Expr.evalAll, Expr.evalAll]
      exact eval_construct_of_keepsBits hA hkeeps hflatten
    rw [flatMap_converted htarget]
    unfold Expr.convert
    -- of the pairs that are left, some cast the bits and some keep them
    cases source <;> cases target <;> first
      | contradiction
      | exact h
      | exact eval_bitCast hA rfl h
      | exact hreconstruct (by simp [KeepsBits])

theorem Holds.bitCast (hA : A.Lawful) {f : Function} {source target : NumberType} {e : Expr}
    {ws : List UInt32} (hf : bitCast? f = some (source, target)) (h : Holds A scope m e source ws) :
    Holds A scope m (.call f [e]) target ws where
  hasType := .bitCast hf h.hasType
  eval := eval_bitCast hA hf h.eval

/-- A value that is read as another type of 32 bits has the same words. -/
theorem Holds.convert (hA : A.Lawful) {source target : NumberType} {e : Expr} {ws : List UInt32}
    (hsource : source ≠ .double) (htarget : target ≠ .double) (h : Holds A scope m e source ws) :
    Holds A scope m (e.convert source target ws.length) target ws where
  hasType := by
    unfold Expr.convert
    -- each pair of types has the rule for the conversion that is printed
    cases source <;> cases target <;> first
      | contradiction
      | exact h.hasType
      | exact .bitCast rfl h.hasType
      | exact .reconstruct (by simp [KeepsBits]) h.hasType
  eval := by rw [eval_convert hA _ hsource h.eval, flatMap_converted htarget]

/-- The components of arguments, one after the other. -/
theorem flatten_evalAll_map (e : α → Expr) (l : List α) :
    (Expr.evalAll A scope m (l.map e)).flatten = l.flatMap fun a => (e a).eval A scope m := by
  induction l with
  | nil => rfl
  | cons a l ih => rw [List.map_cons, Expr.evalAll, List.flatten_cons, ih, List.flatMap_cons]

/-- A vector that is made from expressions for its lanes. -/
theorem Holds.construct (hA : A.Lawful) {t : NumberType} (ht : t ≠ .double) {l : List α}
    {e : α → Expr} {w : α → UInt32} (h : ∀ a ∈ l, Holds A scope m (e a) t [w a])
    (hleast : 2 ≤ l.length) (hmost : l.length ≤ 4) :
    Holds A scope m (.construct ⟨t, l.length⟩ (l.map e)) t (l.map w) where
  hasType := by
    have hes : ∀ e' ∈ l.map e, HasType scope e' ⟨t, 1⟩ := by
      intro e' he'
      obtain ⟨a, ha, rfl⟩ := List.mem_map.1 he'
      exact (h a ha).hasType
    have htyped := HasType.construct hes (by rwa [List.length_map]) (by rwa [List.length_map])
    rwa [List.length_map] at htyped ⊢
  eval := by
    have hvalues : (Expr.evalAll A scope m (l.map e)).flatten
        = (l.map w).map (Scalar.ofWord t) := by
      rw [flatten_evalAll_map, List.map_map, List.map_eq_flatMap]
      exact List.flatMap_congr fun a ha => (h a ha).eval
    rw [Expr.eval]
    have heval := eval_construct_of_keepsBits hA (.inl ⟨rfl, ht⟩) hvalues
    rwa [List.length_map] at heval

/-! ### Variables

The components of a variable are read in the order in which they are selected, with repetitions, so
a swizzle is a selection like any other. -/

/-- The component of a variable of four components. -/
theorem getElem?_load {n : Name} (hn : ∀ identifier, n ≠ .sampler identifier) {t : NumberType}
    (ht : scope n = ⟨t, 4⟩) (i : Nat) (lane : Lane) :
    (m.load scope n i)[lane.val]? = some (.ofWord t (m ⟨n, i, lane⟩)) := by
  have hload : m.load scope n i
      = (scope.places n i).map fun p => .ofWord (scope n).scalar (m p) := by
    unfold Memory.load
    split
    · next identifier => exact absurd rfl (hn identifier)
    · rfl
  have hlanes : (List.finRange 4).take 4 = List.finRange 4 := rfl
  rw [hload, Scope.places, ht, hlanes, List.map_map, List.getElem?_map,
    List.getElem?_eq_getElem (by rw [List.length_finRange]; exact lane.isLt)]
  simp

/-- An expression is an element of an array of vectors of four components, or the variable where it
is no array. -/
structure StandsFor (A : Arithmetic) (scope : Scope) (m : Memory) (e : Expr) (t : NumberType)
    (n : Name) (i : Nat) : Prop where
  notSampler : ∀ identifier, n ≠ .sampler identifier
  declared : scope n = ⟨t, 4⟩
  isPostfix : e.isPostfix
  hasType : HasType scope e (scope n)
  eval : e.eval A scope m = m.load scope n i

theorem StandsFor.holds_components {e : Expr} {t : NumberType} {n : Name} {i : Nat}
    {lanes : List Lane} (h : StandsFor A scope m e t n i) (hleast : lanes ≠ [])
    (hmost : lanes.length ≤ 4) :
    Holds A scope m (.components e lanes) t (lanes.map fun lane => m ⟨n, i, lane⟩) where
  hasType := by
    have hasType := h.hasType
    rw [h.declared] at hasType
    rw [List.length_map]
    exact .components h.isPostfix hasType (fun lane _ => lane.isLt) hleast hmost
  eval := by
    simp only [Expr.eval, h.eval, getElem?_load h.notSampler h.declared, List.map_map]
    exact congrFun List.filterMap_eq_map lanes

/-! ### Positions in an array

Positions are sums of an index register and a constant. They wrap around like the words that they
are compared with. -/

theorem holds_integer {n : Int} (h : n.natAbs < wordLimit) :
    Holds A scope m (.integer n) .int [UInt32.ofInt n] :=
  ⟨.integer h, rfl⟩

theorem Holds.add (hA : A.Lawful) {left right : Expr} {a b : UInt32} (hleft : left.isOperand)
    (hright : right.isOperand) (h : Holds A scope m left .int [a])
    (h' : Holds A scope m right .int [b]) :
    Holds A scope m (.binary .add left right) .int [a + b] where
  hasType := .add hleft hright h.hasType h'.hasType
  eval := by
    rw [Expr.eval, h.eval, h'.eval]
    exact hA.add a b

end
end Glsl
end ShaderBytecode
