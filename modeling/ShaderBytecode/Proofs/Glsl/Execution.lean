import Mathlib.Logic.Function.Basic
import ShaderBytecode.Glsl.Statement

/-!
# Running statements

What the statements of a shader do to its variables. A variable has words for its components, an
array has them for each element, and a memory says what stands in each of these places. What the
operators and functions of the language compute is left open (`Arithmetic`).

A statement that neither returns nor gives up the pixel replaces the words of some places. To say
that it may be moved in front of another it is enough to know which places it looks at:

    eval_congr                : e.eval m = e.eval m' if both agree where e reads
    executeAll_of_independent : one after the other is all at once, if no statement reads what
                                one before it writes

Places are single components, so that assignments to some lanes of a register do not count as
writing the others.

Nothing here depends on what the operators compute. So the results are good for an implementation
whose arithmetic is its own affair, as long as it computes the same from the same.
-/

namespace ShaderBytecode
namespace Glsl

/-! ### Values

Numbers are words, whatever their type. A variable of one type may hold what was computed as
another, and the conversions between them are part of the arithmetic. -/

/-- A component of a value. Numbers are given by their bits. -/
inductive Scalar where
  | float (bits : UInt32)
  | int (bits : UInt32)
  | uint (bits : UInt32)
  | double (bits : UInt64)
  | truth (b : Bool)
  /-- A sampler, which may be an element of an array. -/
  | sampler (identifier : String) (element : Nat)
deriving DecidableEq, Repr

namespace Scalar

/-- A word that is read as a number. Doubles do not stand in single words. -/
def ofWord (type : NumberType) (word : UInt32) : Scalar :=
  match type with
  | .float => float word
  | .int => int word
  | .uint | .double => uint word

/-- The word in which a number of 32 bits is stored. -/
def word : Scalar → UInt32
  | float bits | int bits | uint bits => bits
  | double _ | truth _ | sampler _ _ => 0

end Scalar

/-- A value: its components in their order. -/
abbrev Value := List Scalar

namespace Value

/-- The element of an array that a value names. -/
def index (v : Value) : Nat := ((v.head?.map Scalar.word).getD 0).toNat

/-- A condition holds. -/
def holds (v : Value) : Bool := v.head? == some (.truth true)

end Value

/-- What operators and functions compute. -/
structure Arithmetic where
  call : Function → List Value → Value
  construct : ValueType → List Value → Value
  unary : UnaryOperator → Value → Value
  binary : BinaryOperator → Value → Value → Value
  /-- The high and the low half of the products of components. -/
  wide : Function → Value → Value → Value × Value

/-! ### Memory

A memory has no bounds: elements of an array behind its end have places too. What matters is which
places are written, not which there are. -/

/-- A component of a variable, or of an element of an array. -/
structure Place where
  name : Name
  /-- The element, which is zero for a variable that is no array. -/
  element : Nat
  lane : Lane
deriving DecidableEq, Repr

/-- The words of all places. -/
abbrev Memory := Place → UInt32

/-- The types of variables; for arrays, of their elements. -/
abbrev Scope := Name → ValueType

/-- The places of a variable or an element of it. -/
def Scope.places (scope : Scope) (name : Name) (element : Nat) : List Place :=
  ((List.finRange 4).take (scope name).lanes).map fun lane => ⟨name, element, lane⟩

/-- The contents of a variable or an element of it. -/
def Memory.load (m : Memory) (scope : Scope) (name : Name) (element : Nat) : Value :=
  match name with
  | .sampler identifier => [.sampler identifier element]
  | _ => (scope.places name element).map fun p => .ofWord (scope name).scalar (m p)

/-- A memory in which words have been replaced, one after the other. -/
def Memory.update (m : Memory) (words : List (Place × UInt32)) : Memory :=
  words.foldl (fun m w => Function.update m w.1 w.2) m

/-- Two memories have the same words in some places. -/
def Memory.AgreeOn (m m' : Memory) (places : List Place) : Prop := ∀ p ∈ places, m p = m' p

namespace Memory

variable {m m' : Memory}

/-- Words that are replaced behind others. -/
theorem update_append (m : Memory) (ws ws' : List (Place × UInt32)) :
    m.update (ws ++ ws') = (m.update ws).update ws' :=
  List.foldl_append

/-- A place for which there is no new word keeps its word. -/
theorem update_apply_of_not_mem {p : Place} {ws : List (Place × UInt32)}
    (h : p ∉ ws.map Prod.fst) : m.update ws p = m p := by
  induction ws generalizing m with
  | nil => rfl
  | cons w ws ih =>
    rw [List.map_cons, List.mem_cons, not_or] at h
    rw [update, List.foldl_cons, ← update, ih h.2, Function.update_of_ne h.1]

/-- Among new words for different places, the one for a place is what is left there. -/
theorem update_apply_of_mem {place : α → Place} (hplace : Function.Injective place)
    (word : α → UInt32) {as : List α} {a : α} (h : a ∈ as) :
    m.update (as.map fun a => (place a, word a)) (place a) = word a := by
  induction as generalizing m with
  | nil => cases h
  | cons b rest ih =>
    rw [List.map_cons, update, List.foldl_cons, ← update]
    -- a later word for the same element would be the same one
    by_cases hrest : a ∈ rest
    · exact ih hrest
    · obtain rfl : a = b := (List.mem_cons.1 h).resolve_right hrest
      have hnot : place a ∉ (rest.map fun a => (place a, word a)).map Prod.fst := by
        rw [List.map_map]
        intro hmem
        obtain ⟨b, hb, heq⟩ := List.mem_map.1 hmem
        exact hrest (hplace heq ▸ hb)
      rw [update_apply_of_not_mem hnot, Function.update_self]

/-- Agreement is by places. -/
theorem agreeOn_append {ps ps' : List Place} :
    m.AgreeOn m' (ps ++ ps') ↔ m.AgreeOn m' ps ∧ m.AgreeOn m' ps' :=
  List.forall_mem_append

/-- The contents of a variable depend on its places. -/
theorem load_congr {scope : Scope} {n : Name} {i : Nat} (h : m.AgreeOn m' (scope.places n i)) :
    m.load scope n i = m'.load scope n i := by
  unfold load
  split
  · rfl
  · exact List.map_congr_left fun p hp => by rw [h p hp]

/-- A component of a variable is the same where its place has the same word. -/
theorem getElem?_load_congr {scope : Scope} {n : Name} {i : Nat} {lane : Lane}
    (h : m ⟨n, i, lane⟩ = m' ⟨n, i, lane⟩) :
    (m.load scope n i)[lane.val]? = (m'.load scope n i)[lane.val]? := by
  unfold load
  split
  · rfl
  · simp only [Scope.places, List.map_map, List.getElem?_map, List.getElem?_take]
    split
    · rw [List.getElem?_eq_getElem (by rw [List.length_finRange]; exact lane.isLt)]
      simp [h]
    · rfl

end Memory

/-! ### Expressions

The value of an element of an array depends on where it is, which is an expression itself. So what
an expression reads is not known before it is evaluated, and reading has a memory as an argument,
too. -/

section

variable (A : Arithmetic) (scope : Scope) (m : Memory)

mutual

/-- The value of an expression. Only variables can be arrays. -/
def Expr.eval : Expr → Value
  | .name n => m.load scope n 0
  | .element (.name n) position => m.load scope n position.eval.index
  | .element _ _ => []
  | .components vector lanes => lanes.filterMap fun lane => vector.eval[lane.val]?
  | .integer n => [.int (UInt32.ofInt n)]
  | .unsigned n | .pattern n => [.uint n]
  | .float bits => [.float bits]
  | .double bits => [.double bits]
  | .call f arguments => A.call f (Expr.evalAll arguments)
  | .construct type arguments => A.construct type (Expr.evalAll arguments)
  | .unary operator operand => A.unary operator operand.eval
  | .binary operator left right => A.binary operator left.eval right.eval
  | .choose condition yes no => if condition.eval.holds then yes.eval else no.eval
  | .group inner => inner.eval

/-- The values of arguments. -/
def Expr.evalAll : List Expr → List Value
  | [] => []
  | e :: es => e.eval :: Expr.evalAll es

end

mutual

/-- The places that the value of an expression depends on. -/
def Expr.reads : Expr → List Place
  | .name n => scope.places n 0
  | .element (.name n) position =>
    position.reads ++ scope.places n (position.eval A scope m).index
  | .element _ _ => []
  | .components (.name n) lanes => lanes.map fun lane => ⟨n, 0, lane⟩
  | .components (.element (.name n) position) lanes =>
    position.reads ++ lanes.map fun lane => ⟨n, (position.eval A scope m).index, lane⟩
  | .components vector _ => vector.reads
  | .call _ arguments | .construct _ arguments => Expr.readsAll arguments
  | .unary _ operand => operand.reads
  | .binary _ left right => left.reads ++ right.reads
  | .choose condition yes no => condition.reads ++ yes.reads ++ no.reads
  | .group inner => inner.reads
  | .integer _ | .unsigned _ | .pattern _ | .float _ | .double _ => []

/-- The places that the values of arguments depend on. -/
def Expr.readsAll : List Expr → List Place
  | [] => []
  | e :: es => e.reads ++ Expr.readsAll es

end

/-! ### Targets

A target stands for places, and where it stands may depend on the memory. -/

/-- What can be assigned to. -/
structure Target where
  name : Name
  /-- The element, if the variable is an array. -/
  position : Option Expr
  /-- The components, if not all are assigned to. -/
  lanes : Option (List Lane)

/-- The target that an expression is, if it can be assigned to. -/
def Expr.target? : Expr → Option Target
  | .name n => some ⟨n, none, none⟩
  | .element (.name n) position => some ⟨n, some position, none⟩
  | .components (.name n) lanes => some ⟨n, none, some lanes⟩
  | .components (.element (.name n) position) lanes => some ⟨n, some position, some lanes⟩
  | _ => none

/-- The places of a target. -/
def Target.places (t : Target) : List Place :=
  let element := (t.position.map fun e => (e.eval A scope m).index).getD 0
  match t.lanes with
  | some lanes => lanes.map fun lane => ⟨t.name, element, lane⟩
  | none => scope.places t.name element

/-- The places on which it depends where a target stands. -/
def Target.reads (t : Target) : List Place :=
  t.position.toList.flatMap fun e => e.reads A scope m

end

section

variable {A : Arithmetic} {scope : Scope} {m m' : Memory}

/-- Choosing components of a value. -/
theorem filterMap_getElem?_congr {v v' : Value} {lanes : List Lane}
    (h : ∀ lane ∈ lanes, v[lane.val]? = v'[lane.val]?) :
    lanes.filterMap (fun lane => v[lane.val]?) = lanes.filterMap fun lane => v'[lane.val]? := by
  induction lanes with
  | nil => rfl
  | cons lane lanes ih =>
    rw [List.forall_mem_cons] at h
    rw [List.filterMap_cons, List.filterMap_cons, h.1, ih h.2]

/-- Choosing components of a variable, or of an element of one, reads these components; choosing
them of any other value reads what the value does. -/
theorem reads_components (A : Arithmetic) (scope : Scope) (vector : Expr) :
    (∃ n, vector = .name n) ∨ (∃ n position, vector = .element (.name n) position) ∨
      ∀ m lanes, (Expr.components vector lanes).reads A scope m = vector.reads A scope m := by
  cases vector
  case name n => exact .inl ⟨n, rfl⟩
  case element array position =>
    cases array
    case name n => exact .inr (.inl ⟨n, position, rfl⟩)
    all_goals exact .inr (.inr fun _ _ => rfl)
  all_goals exact .inr (.inr fun _ _ => rfl)

mutual

/-- The value of an expression, and what it reads, depend on nothing but what it reads. -/
theorem eval_congr : ∀ {e : Expr}, m.AgreeOn m' (e.reads A scope m) →
    e.eval A scope m = e.eval A scope m' ∧ e.reads A scope m = e.reads A scope m'
  | .name n, h => ⟨Memory.load_congr h, rfl⟩
  | .element array position, h => by
    cases array
    case name n =>
      simp only [Expr.reads, Memory.agreeOn_append] at h
      obtain ⟨heval, hreads⟩ := eval_congr h.1
      simp only [Expr.eval, Expr.reads, ← heval, ← hreads]
      exact ⟨Memory.load_congr h.2, trivial⟩
    all_goals exact ⟨rfl, rfl⟩
  | .components vector lanes, h => by
    rcases reads_components A scope vector with ⟨n, rfl⟩ | ⟨n, position, rfl⟩ | hreads
    · exact ⟨filterMap_getElem?_congr fun lane hlane =>
        Memory.getElem?_load_congr (h _ (List.mem_map_of_mem hlane)), rfl⟩
    · simp only [Expr.reads, Memory.agreeOn_append] at h
      obtain ⟨heval, hreads⟩ := eval_congr h.1
      simp only [Expr.eval, Expr.reads, ← heval, ← hreads, and_true]
      exact filterMap_getElem?_congr fun lane hlane =>
        Memory.getElem?_load_congr (h.2 _ (List.mem_map_of_mem hlane))
    · rw [hreads] at h
      obtain ⟨heval, hsame⟩ := eval_congr h
      rw [hreads, hreads, Expr.eval, Expr.eval, heval]
      exact ⟨rfl, hsame⟩
  | .call f arguments, h => by
    obtain ⟨heval, hreads⟩ := evalAll_congr h
    exact ⟨congrArg (A.call f) heval, hreads⟩
  | .construct type arguments, h => by
    obtain ⟨heval, hreads⟩ := evalAll_congr h
    exact ⟨congrArg (A.construct type) heval, hreads⟩
  | .unary operator operand, h => by
    obtain ⟨heval, hreads⟩ := eval_congr (e := operand) h
    exact ⟨congrArg (A.unary operator) heval, hreads⟩
  | .binary operator left right, h => by
    simp only [Expr.reads, Memory.agreeOn_append] at h
    obtain ⟨hleft, hleft'⟩ := eval_congr h.1
    obtain ⟨hright, hright'⟩ := eval_congr h.2
    simp only [Expr.eval, Expr.reads, hleft, hright, hleft', hright', and_self]
  | .choose condition yes no, h => by
    simp only [Expr.reads, Memory.agreeOn_append] at h
    obtain ⟨hcondition, hcondition'⟩ := eval_congr h.1.1
    obtain ⟨hyes, hyes'⟩ := eval_congr h.1.2
    obtain ⟨hno, hno'⟩ := eval_congr h.2
    simp only [Expr.eval, Expr.reads, hcondition, hyes, hno, hcondition', hyes', hno', and_self]
  | .group inner, h => eval_congr (e := inner) h
  | .integer _, _ | .unsigned _, _ | .pattern _, _ | .float _, _ | .double _, _ => ⟨rfl, rfl⟩

/-- The same for arguments. -/
theorem evalAll_congr : ∀ {es : List Expr}, m.AgreeOn m' (Expr.readsAll A scope m es) →
    Expr.evalAll A scope m es = Expr.evalAll A scope m' es ∧
      Expr.readsAll A scope m es = Expr.readsAll A scope m' es
  | [], _ => ⟨rfl, rfl⟩
  | e :: es, h => by
    simp only [Expr.readsAll, Memory.agreeOn_append] at h
    obtain ⟨he, he'⟩ := eval_congr h.1
    obtain ⟨hes, hes'⟩ := evalAll_congr h.2
    simp only [Expr.evalAll, Expr.readsAll, he, hes, he', hes', and_self]

end

/-- Where a target stands depends on nothing but what it reads for that. -/
theorem places_congr {t : Target} (h : m.AgreeOn m' (t.reads A scope m)) :
    t.places A scope m = t.places A scope m' ∧ t.reads A scope m = t.reads A scope m' := by
  obtain ⟨n, position, lanes⟩ := t
  cases position with
  | none => exact ⟨rfl, rfl⟩
  | some position =>
    have h : m.AgreeOn m' (position.reads A scope m) := by simpa [Target.reads] using h
    obtain ⟨heval, hreads⟩ := eval_congr h
    simp [Target.places, Target.reads, heval, hreads]

end

/-! ### Statements

A statement replaces words, and the words and their places are computed in the memory in front of
it. A product with two halves has them as variables of its own, which no other statement can see. -/

section

variable (A : Arithmetic) (scope : Scope)

/-- The words that an assignment replaces. -/
def Assignment.updates (m : Memory) (a : Assignment) : List (Place × UInt32) :=
  a.target.target?.toList.flatMap fun t =>
    (t.places A scope m).zip ((a.value.eval A scope m).map Scalar.word)

/-- The places that an assignment depends on. -/
def Assignment.reads (m : Memory) (a : Assignment) : List Place :=
  a.target.target?.toList.flatMap (·.reads A scope m) ++ a.value.reads A scope m

/-- The two halves of a product have a type within their block. -/
def Scope.withHalves (type : ValueType) : Scope
  | .high | .low => type
  | n => scope n

/-- The contents of the two halves of a product. -/
def Memory.withHalves (m : Memory) (halves : Value × Value) : Memory := fun p =>
  match p.name with
  | .high => (halves.1[p.lane.val]?.map Scalar.word).getD 0
  | .low => (halves.2[p.lane.val]?.map Scalar.word).getD 0
  | _ => m p

/-- The halves of the product of two expressions. -/
def halvesOf (m : Memory) (f : Function) (left right : Expr) : Value × Value :=
  A.wide f (left.eval A scope m) (right.eval A scope m)

/-- A name is that of one of the halves of a product, which exist in no other statement. -/
def Name.isHalf (n : Name) : Bool := n == .high || n == .low

/-- A place belongs to one of the halves of a product. -/
def Place.isHalf (p : Place) : Bool := p.name.isHalf

namespace Statement

/-- The words that a statement replaces, if it does not leave `main`. -/
def updates (m : Memory) : Statement → List (Place × UInt32)
  | assign a => a.updates A scope m
  | wideProduct type f left right high =>
    high.updates A (scope.withHalves type) (m.withHalves (halvesOf A scope m f left right))
  | _ => []

/-- The places that the words depend on that a statement replaces. -/
def reads (m : Memory) : Statement → List Place
  | assign a => a.reads A scope m
  | wideProduct type f left right high =>
    left.reads A scope m ++ right.reads A scope m ++
      (high.reads A (scope.withHalves type)
        (m.withHalves (halvesOf A scope m f left right))).filter fun p => !p.isHalf
  | _ => []

/-- The places that a statement writes. -/
def writes (m : Memory) (s : Statement) : List Place := (s.updates A scope m).map Prod.fst

/-- A statement neither returns nor gives up the pixel. -/
def isStraight : Statement → Bool
  | discardIf _ | returnIf _ _ | leave => false
  | _ => true

end Statement

/-- How running ends: behind the last statement, by a return, or by giving up the pixel. -/
inductive Outcome where
  | running (m : Memory)
  | returned (m : Memory)
  | discarded

/-- Run a statement. -/
def Statement.execute (m : Memory) : Statement → Outcome
  | .discardIf condition =>
    if (condition.eval A scope m).holds then .discarded else .running m
  | .returnIf condition copies =>
    if (condition.eval A scope m).holds then
      .returned (copies.foldl (fun m a => m.update (a.updates A scope m)) m)
    else .running m
  | .leave => .returned m
  | s => .running (m.update (s.updates A scope m))

/-- Run statements one after the other. -/
def executeAll (m : Memory) : List Statement → Outcome
  | [] => .running m
  | s :: rest =>
    match s.execute A scope m with
    | .running m' => executeAll m' rest
    | outcome => outcome

/-- Run statements all at once: whatever they read is as it was before. -/
def executeAtOnce (m : Memory) (statements : List Statement) : Memory :=
  m.update (statements.flatMap fun s => s.updates A scope m)

/-- No statement reads what one before it writes. -/
def Independent (m : Memory) (statements : List Statement) : Prop :=
  statements.Pairwise fun s t => ∀ p ∈ t.reads A scope m, p ∉ s.writes A scope m

instance (m : Memory) (statements : List Statement) :
    Decidable (Independent A scope m statements) :=
  inferInstanceAs (Decidable (List.Pairwise _ _))

end

section

variable {A : Arithmetic} {scope : Scope} {m m' : Memory}

/-- A straight statement replaces its words and goes on. -/
theorem Statement.execute_of_straight {s : Statement} (h : s.isStraight) :
    s.execute A scope m = .running (m.update (s.updates A scope m)) := by
  cases s with
  | discardIf | returnIf | leave => cases h
  | _ => rfl

/-- What an assignment does depends on nothing but what it reads. -/
theorem assignment_congr {a : Assignment} (h : m.AgreeOn m' (a.reads A scope m)) :
    a.updates A scope m = a.updates A scope m' ∧ a.reads A scope m = a.reads A scope m' := by
  rw [Assignment.reads, Memory.agreeOn_append] at h
  -- what the value and the target depend on
  obtain ⟨heval, hreads⟩ := eval_congr h.2
  cases ht : a.target.target? with
  | none => simp [Assignment.updates, Assignment.reads, ht, hreads]
  | some t =>
    have htarget : m.AgreeOn m' (t.reads A scope m) := by simpa [ht] using h.1
    obtain ⟨hplaces, htarget⟩ := places_congr htarget
    simp [Assignment.updates, Assignment.reads, ht, heval, hreads, hplaces, htarget]

/-- Memories that agree outside of the halves agree everywhere once these have been set. -/
theorem Memory.AgreeOn.withHalves {ps : List Place} (halves : Value × Value)
    (h : m.AgreeOn m' (ps.filter fun p => !p.isHalf)) :
    (m.withHalves halves).AgreeOn (m'.withHalves halves) ps := by
  intro p hp
  unfold Memory.withHalves
  split
  · rfl
  · rfl
  · next hhigh hlow =>
    have hhalf : p.isHalf = false := by
      rw [Place.isHalf, Name.isHalf, Bool.or_eq_false_iff, beq_eq_false_iff_ne, beq_eq_false_iff_ne]
      exact ⟨hhigh, hlow⟩
    exact h p (List.mem_filter.2 ⟨hp, by rw [hhalf]; rfl⟩)

/-- What a statement does, and what it reads, depend on nothing but what it reads. -/
theorem updates_congr {s : Statement} (h : m.AgreeOn m' (s.reads A scope m)) :
    s.updates A scope m = s.updates A scope m' ∧ s.reads A scope m = s.reads A scope m' := by
  cases s with
  | assign a => exact assignment_congr h
  | wideProduct type f left right high =>
    rw [Statement.reads, Memory.agreeOn_append, Memory.agreeOn_append] at h
    obtain ⟨hleft, hleft'⟩ := eval_congr h.1.1
    obtain ⟨hright, hright'⟩ := eval_congr h.1.2
    have hhalves : halvesOf A scope m f left right = halvesOf A scope m' f left right := by
      rw [halvesOf, halvesOf, hleft, hright]
    obtain ⟨hhigh, hhigh'⟩ := assignment_congr (h.2.withHalves (halvesOf A scope m f left right))
    simp only [Statement.updates, Statement.reads, hleft', hright', ← hhalves, hhigh, hhigh',
      and_self]
  | _ => exact ⟨rfl, rfl⟩

/-- **One after the other or all at once.** Statements that neither return nor give up the pixel
may be run all at once, if none of them reads what one before it writes. -/
theorem executeAll_of_independent {statements : List Statement}
    (hstraight : ∀ s ∈ statements, s.isStraight) (h : Independent A scope m statements) :
    executeAll A scope m statements = .running (executeAtOnce A scope m statements) := by
  induction statements generalizing m with
  | nil => rfl
  | cons s rest ih =>
    rw [List.forall_mem_cons] at hstraight
    obtain ⟨hs, hrest⟩ := List.pairwise_cons.1 h
    generalize hm' : m.update (s.updates A scope m) = m'
    -- the rest looks only at places that `s` leaves alone
    have hsame : ∀ t ∈ rest, t.updates A scope m = t.updates A scope m' ∧
        t.reads A scope m = t.reads A scope m' := by
      intro t ht
      apply updates_congr
      intro p hp
      rw [← hm', Memory.update_apply_of_not_mem (hs t ht p hp)]
    have hindependent : Independent A scope m' rest := by
      refine List.Pairwise.imp_of_mem (fun {t u} ht hu htu => ?_) hrest
      rw [← (hsame u hu).2, Statement.writes, ← (hsame t ht).1]
      exact htu
    have hwords : rest.flatMap (fun t => t.updates A scope m')
        = rest.flatMap fun t => t.updates A scope m := by
      rw [List.flatMap, List.flatMap, List.map_congr_left fun t ht => ((hsame t ht).1).symm]
    rw [executeAll, Statement.execute_of_straight hstraight.1, hm']
    dsimp only
    rw [ih hstraight.2 hindependent, executeAtOnce, executeAtOnce, hwords, List.flatMap_cons,
      Memory.update_append, hm']

end

end Glsl
end ShaderBytecode
