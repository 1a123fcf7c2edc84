import Mathlib.Data.List.Forall2
import Mathlib.Data.Nat.Bitwise
import ShaderBytecode.Proofs.Glsl.Agreement
import ShaderBytecode.Proofs.Glsl.WrittenLanes

/-!
# Limited statements

An operation may say that its result saturates, which matters for floats and not for whole numbers.
It is lowered twice here, with the flag clear and set.

    Limited                : a statement, and the one in which a computed float is limited
    Traced.Alike.bind      : runs that leave the same traces do so one behind the other
    limitedAlike_operation : the statements of an operation are limited, its trace is the same
    Limited.lines          : on its line, `clamp( , 0.0, 1.0)` is written around the float

Everything else that an operation does is shown not to look at the flag. The flag stands in the
first word too, from which other controls are read, and these are told by other bits.
-/

namespace ShaderBytecode

/-! ### The flag

Setting and clearing the flag changes two fields of the head, the flag itself and its bit in the
word that is kept. -/

/-- The bit of the first word of an operation that says that the result saturates. -/
def saturateBit : UInt32 := 0x2000

/-- What an operation says, with its result saturating or not. -/
def OperationHead.withSaturate (head : OperationHead) (saturate : Bool) : OperationHead :=
  { head with
    saturate := saturate
    token := if saturate then head.token ||| saturateBit else head.token &&& ~~~saturateBit }

@[simp]
theorem opcode_withSaturate (head : OperationHead) (saturate : Bool) :
    (head.withSaturate saturate).opcode = head.opcode := rfl

/-- The type of a size is told by other bits of the word. -/
theorem sizeQueryType_withSaturate (head : OperationHead) (saturate : Bool) :
    (head.withSaturate saturate).sizeQueryType = head.sizeQueryType := by
  -- the bits from the eleventh on, two of them, are above the flag's in neither case
  have hor (n : Nat) : ((n ||| 0x2000) >>> 11) % 2 ^ 2 = (n >>> 11) % 2 ^ 2 := by
    rw [Nat.shiftRight_or_distrib, Nat.or_mod_two_pow]
    exact Nat.or_zero _
  have hand (n : Nat) : ((n &&& 0xFFFFDFFF) >>> 11) % 2 ^ 2 = (n >>> 11) % 2 ^ 2 := by
    rw [Nat.shiftRight_and_distrib, Nat.and_mod_two_pow]
    show (n >>> 11) % 2 ^ 2 &&& 2 ^ 2 - 1 = (n >>> 11) % 2 ^ 2
    rw [Nat.and_two_pow_sub_one_eq_mod, Nat.mod_mod]
  cases saturate with
  | true =>
    show ((head.token ||| saturateBit).toNat >>> 11) % 4 = _
    rw [UInt32.toNat_or]
    exact hor _
  | false =>
    show ((head.token &&& ~~~saturateBit).toNat >>> 11) % 4 = _
    rw [UInt32.toNat_and]
    exact hand _

namespace Glsl

/-! ### Limited values

A computed value passes through `Destination.saturated`, and is then converted to the type of the
register. So the limit stands inside of the conversion. -/

/-- The number type of what an operation computes. The type of a size is asked for by the operation
itself, and other lookups have the type of the texture. -/
def computedType (ctx : Context) (head : OperationHead) (operands : List Operand) : NumberType :=
  match lookedUp? head operands with
  | none => head.opcode.resultType
  | some resource =>
    if head.opcode = .resinfo then if head.sizeQueryType = wholeSize then .uint else .float
    else
      match lookup? ctx resource with
      | some (texture, _) => texture.numberType
      | none => .float

/-- A value that is limited to the range from zero to one if it is a float. -/
def limited (type : NumberType) (value : Expr) : Expr :=
  if type = .float then .call .clamp [value, .zero, .one] else value

theorem text_limited (value : Expr) :
    (limited .float value).text = "clamp(" ++ value.text ++ ", 0.0, 1.0)" := by
  have hzero : Expr.zero.text = "0.0" := by decide
  have hone : Expr.one.text = "1.0" := by decide
  simp [limited, Expr.text, Expr.textOfArguments, Expr.textOfMoreArguments, Function.text, hzero,
    hone, String.append_assoc]

/-- What a run of an operation may assign to. -/
def IsDestination (ctx : Context) (operands : List Operand) (d : Destination) : Prop :=
  ∃ dst ∈ operands, (destination ctx dst).value = some d

/-- The statements of an operation that computes values of a type, when it does not saturate and
when it does. -/
inductive Limited (ctx : Context) (operands : List Operand) (type : NumberType)
    (copies : List Assignment) : Statement → Statement → Prop
  /-- The value that is computed is limited before it is converted for the register. -/
  | computed {d : Destination} (value : Expr) : IsDestination ctx operands d →
      Limited ctx operands type copies (.assign ⟨d.target, value.convert type d.type d.width⟩)
        (.assign ⟨d.target, (limited type value).convert type d.type d.width⟩)
  /-- The copies in front of a return are no values of the operation. -/
  | copy {a : Assignment} : a ∈ copies → Limited ctx operands type copies (.assign a) (.assign a)
  /-- The high half of a product is a whole number. -/
  | product {t : ValueType} {f : Function} {left right : Expr} {high : Assignment} :
      t.scalar ≠ .float → type ≠ .float →
      Limited ctx operands type copies (.wideProduct t f left right high)
        (.wideProduct t f left right high)
  /-- A comment, a declaration or a way out. -/
  | other {s : Statement} : s.target? = none → Limited ctx operands type copies s s

/-! ### Runs with the same trace

Two runs are compared as traces and as values at once. The traces must be the same, so that the same
notices are given and the same slots left behind. -/

namespace Traced

/-- Two runs leave the same trace, and their results are related. -/
structure Alike (R : α → β → Prop) (x : Traced α) (y : Traced β) : Prop where
  value : R x.value y.value
  notices : x.notices = y.notices
  rawSlots : x.rawSlots = y.rawSlots
  steps : x.steps = y.steps

theorem alike_pure {R : α → β → Prop} {a : α} {b : β} (h : R a b) :
    Alike R (pure a : Traced α) (pure b : Traced β) :=
  ⟨h, rfl, rfl, rfl⟩

theorem alike_refl {R : α → α → Prop} {x : Traced α} (h : R x.value x.value) : Alike R x x :=
  ⟨h, rfl, rfl, rfl⟩

theorem Alike.bind {Q : α → β → Prop} {R : γ → δ → Prop} {x : Traced α} {y : Traced β}
    {f : α → Traced γ} {g : β → Traced δ} (h : Alike Q x y)
    (hf : Alike R (f x.value) (g y.value)) : Alike R (x >>= f) (y >>= g) where
  value := hf.value
  notices := by rw [notices_bind, notices_bind, h.notices, hf.notices]
  rawSlots := by rw [rawSlots_bind, rawSlots_bind, h.rawSlots, hf.rawSlots]
  steps := by rw [steps_bind, steps_bind, h.steps, hf.steps]

/-- The same run in front of two that leave the same trace. -/
theorem alike_bind {R : β → γ → Prop} {x : Traced α} {f : α → Traced β} {g : α → Traced γ}
    (h : Alike R (f x.value) (g x.value)) : Alike R (x >>= f) (x >>= g) :=
  Alike.bind (Q := fun _ _ => True) (alike_refl trivial) h

end Traced

/-! ### Operations

The flag is looked at in one place of the model, where an assignment is made. What stands around it
is the same run for both. -/

open Traced

section

variable {ctx : Context} {operands : List Operand} {type : NumberType} {copies : List Assignment}

/-- Two runs have the same trace and yield the same statements but for the limits. -/
abbrev LimitedAlike (ctx : Context) (operands : List Operand) (type : NumberType)
    (copies : List Assignment) (x y : Traced (List Statement)) : Prop :=
  Alike (List.Forall₂ (Limited ctx operands type copies)) x y

theorem limited_assignment {d : Destination} (hd : IsDestination ctx operands d)
    (head : OperationHead) (value : Expr) (type : NumberType) :
    Limited ctx operands type copies (assignment d (head.withSaturate false) value type)
      (assignment d (head.withSaturate true) value type) := by
  -- without the flag the value is assigned as it is
  have hset : Destination.saturated true type value = limited type value := by
    simp [Destination.saturated, limited]
  show Limited ctx operands type copies (.assign ⟨d.target, value.convert type d.type d.width⟩)
    (.assign ⟨d.target, (Destination.saturated true type value).convert type d.type d.width⟩)
  rw [hset]
  exact .computed value hd

theorem limitedAlike_assignment {d : Destination} (hd : IsDestination ctx operands d)
    (head : OperationHead) (value : Expr) (type : NumberType) :
    LimitedAlike ctx operands type copies
      (pure [assignment d (head.withSaturate false) value type])
      (pure [assignment d (head.withSaturate true) value type]) :=
  alike_pure (.cons (limited_assignment hd head value type) .nil)

theorem limitedAlike_unmapped (head : OperationHead) :
    LimitedAlike ctx operands type copies (pure (unmapped (head.withSaturate false)))
      (pure (unmapped (head.withSaturate true))) :=
  alike_pure (.cons (.other rfl) .nil)

theorem limitedAlike_toDestination {dst : Operand} (hdst : dst ∈ operands)
    {f g : Destination → Traced (List Statement)}
    (h : ∀ d, IsDestination ctx operands d → LimitedAlike ctx operands type copies (f d) (g d)) :
    LimitedAlike ctx operands type copies (toDestination ctx dst f) (toDestination ctx dst g) := by
  apply alike_bind
  cases hd : (destination ctx dst).value with
  | none => exact alike_pure .nil
  | some d => exact h d ⟨dst, hdst, hd⟩

/-- The statements for two destinations, one behind the other. -/
theorem limitedAlike_both {x y x' y' : Traced (List Statement)}
    (h : LimitedAlike ctx operands type copies x y)
    (h' : LimitedAlike ctx operands type copies x' y') :
    LimitedAlike ctx operands type copies (x >>= fun ss => x' >>= fun ts => pure (ss ++ ts))
      (y >>= fun ss => y' >>= fun ts => pure (ss ++ ts)) :=
  h.bind (h'.bind (alike_pure (List.rel_append h.value h'.value)))

/-! ### Types of what is computed

Whether a result is a float is known from the opcode, unless a texture decides it. -/

theorem computedType_of_lookedUp?_eq_none {head : OperationHead}
    (h : lookedUp? head operands = none) :
    computedType ctx head operands = head.opcode.resultType := by
  simp only [computedType, h]

/-- Lookups of filtered values and of single texels have the type of the texture. -/
theorem computedType_of_lookup {head : OperationHead} {resource : Operand}
    (h : lookedUp? head operands = some resource) (hop : head.opcode ≠ .resinfo) {texture : Texture}
    {sampler : Expr} (hlookup : lookup? ctx resource = some (texture, sampler)) :
    texture.numberType = computedType ctx head operands := by
  simp only [computedType, h, if_neg hop, hlookup]

theorem type_sizeValue (head : OperationHead) (texture : Texture) (size levels : Expr) :
    (sizeValue head texture size levels).1
      = if head.sizeQueryType = wholeSize then .uint else .float := by
  simp only [sizeValue, apply_ite Prod.fst]
  split
  · next hreciprocal =>
    rw [hreciprocal]
    rfl
  · rfl

/-! ### Lookups

A lookup that finds no texture leaves a comment, which has nothing to be limited. -/

/-- A lookup whose result has a known type. -/
theorem limitedAlike_textureLookup (head : OperationHead) {dst : Operand} (hdst : dst ∈ operands)
    {resource : Operand} {call : Texture → Expr → Traced (NumberType × Expr)}
    (htype : ∀ {texture sampler}, lookup? ctx resource = some (texture, sampler) →
      (call texture sampler).value.1 = type) :
    LimitedAlike ctx operands type copies
      (textureLookup ctx (head.withSaturate false) dst resource call)
      (textureLookup ctx (head.withSaturate true) dst resource call) := by
  apply limitedAlike_toDestination hdst
  intro d hd
  apply alike_bind
  cases hlookup : lookup? ctx resource with
  | none => exact limitedAlike_unmapped head
  | some found =>
    obtain ⟨texture, sampler⟩ := found
    apply alike_bind
    rw [← htype hlookup]
    exact limitedAlike_assignment hd head _ _

theorem limitedAlike_sample {head : OperationHead} {dst address resource : Operand}
    (hdst : dst ∈ operands) (h : lookedUp? head operands = some resource)
    (hop : head.opcode ≠ .resinfo) (sampling : Sampling) :
    LimitedAlike ctx operands (computedType ctx head operands) copies
      (sample ctx (head.withSaturate false) dst address resource sampling)
      (sample ctx (head.withSaturate true) dst address resource sampling) :=
  limitedAlike_textureLookup head hdst fun hlookup => computedType_of_lookup h hop hlookup

theorem limitedAlike_fetch {head : OperationHead} {dst address resource : Operand}
    (hdst : dst ∈ operands) (h : lookedUp? head operands = some resource)
    (hop : head.opcode ≠ .resinfo) (number : Option Operand) :
    LimitedAlike ctx operands (computedType ctx head operands) copies
      (fetch ctx (head.withSaturate false) dst address resource number)
      (fetch ctx (head.withSaturate true) dst address resource number) :=
  limitedAlike_textureLookup head hdst fun hlookup => computedType_of_lookup h hop hlookup

theorem limitedAlike_sizeQuery {head : OperationHead} {dst level resource : Operand}
    (hop : head.opcode = .resinfo) :
    LimitedAlike ctx [dst, level, resource] (computedType ctx head [dst, level, resource]) copies
      (textureLookup ctx (head.withSaturate false) dst resource
        (sizeQuery ctx (head.withSaturate false) level))
      (textureLookup ctx (head.withSaturate true) dst resource
        (sizeQuery ctx (head.withSaturate true) level)) := by
  -- the query asks for one type, whatever the texture is
  have hquery (saturate : Bool) :
      sizeQuery ctx (head.withSaturate saturate) level = sizeQuery ctx head level := by
    funext texture sampler
    simp only [sizeQuery, sizeValue, sizeQueryType_withSaturate]
  rw [hquery, hquery]
  apply limitedAlike_textureLookup head List.mem_cons_self
  intro texture sampler _
  have hlooks : lookedUp? head [dst, level, resource] = some resource := by
    simp only [lookedUp?, hop]
  simp only [computedType, hlooks, hop, if_true]
  unfold sizeQuery
  split <;> exact type_sizeValue ..

/-! ### Operations by the number of operands

The operations, by the number of their operands as the model has them. Each finds out that no
texture is looked up, or which one. -/

theorem limitedAlike_unary (head : OperationHead) (dst src : Operand) :
    LimitedAlike ctx [dst, src] (computedType ctx head [dst, src]) copies
      (unary ctx (head.withSaturate false) dst src)
      (unary ctx (head.withSaturate true) dst src) := by
  have hnone : lookedUp? head [dst, src] = none := by
    unfold lookedUp?
    split <;> simp_all
  rw [computedType_of_lookedUp?_eq_none hnone]
  apply limitedAlike_toDestination List.mem_cons_self
  intro d hd
  apply alike_bind
  simp only [opcode_withSaturate]
  cases unaryValue? head.opcode d.width _ with
  | none => exact limitedAlike_unmapped head
  | some value => exact limitedAlike_assignment hd head value _

theorem limitedAlike_binary (head : OperationHead) (dst a b : Operand) :
    LimitedAlike ctx [dst, a, b] (computedType ctx head [dst, a, b]) copies
      (binary ctx (head.withSaturate false) dst a b)
      (binary ctx (head.withSaturate true) dst a b) := by
  have hdst : dst ∈ [dst, a, b] := List.mem_cons_self
  unfold binary
  simp only [opcode_withSaturate]
  split
  · next hop => -- sine and cosine
    have hnone : lookedUp? head [dst, a, b] = none := by simp only [lookedUp?, hop]
    -- a sine is a float by its opcode
    have htype : computedType ctx head [dst, a, b] = .float := by
      rw [computedType_of_lookedUp?_eq_none hnone, hop]
      rfl
    rw [htype]
    apply limitedAlike_both
    · apply limitedAlike_toDestination hdst
      intro d hd
      apply alike_bind
      exact limitedAlike_assignment hd head _ _
    · apply limitedAlike_toDestination (List.mem_cons_of_mem _ List.mem_cons_self)
      intro d hd
      apply alike_bind
      exact limitedAlike_assignment hd head _ _
  · next hop => exact limitedAlike_fetch hdst (by simp only [lookedUp?, hop]) (by simp [hop]) none
  · next hop => exact limitedAlike_sizeQuery hop
  · next hld hresinfo =>
    have hnone : lookedUp? head [dst, a, b] = none := by
      unfold lookedUp?
      split <;> simp_all
    rw [computedType_of_lookedUp?_eq_none hnone]
    apply limitedAlike_toDestination hdst
    intro d hd
    cases binaryForm? head.opcode with
    | none => exact limitedAlike_unmapped head
    | some form =>
      apply alike_bind
      apply alike_bind
      exact limitedAlike_assignment hd head _ _

/-- A product in double width, whose low half is assigned by the second statement. -/
theorem limitedAlike_multiplyWide {head : OperationHead} {high low : Operand} (a b : Operand)
    (hhigh : high ∈ operands) (hlow : low ∈ operands) (htype : head.opcode.resultType ≠ .float) :
    LimitedAlike ctx operands head.opcode.resultType copies
      (multiplyWide ctx (head.withSaturate false) high low a b)
      (multiplyWide ctx (head.withSaturate true) high low a b) := by
  apply limitedAlike_both
  · apply limitedAlike_toDestination hhigh
    intro d _
    apply alike_bind
    apply alike_bind
    exact alike_pure (.cons (.product htype htype) .nil)
  · apply limitedAlike_toDestination hlow
    intro d hd
    apply alike_bind
    apply alike_bind
    exact limitedAlike_assignment hd head _ _

theorem limitedAlike_ternary (head : OperationHead) (dst a b c : Operand) :
    LimitedAlike ctx [dst, a, b, c] (computedType ctx head [dst, a, b, c]) copies
      (ternary ctx (head.withSaturate false) dst a b c)
      (ternary ctx (head.withSaturate true) dst a b c) := by
  have hdst : dst ∈ [dst, a, b, c] := List.mem_cons_self
  have hsecond : a ∈ [dst, a, b, c] := List.mem_cons_of_mem _ List.mem_cons_self
  unfold ternary
  simp only [opcode_withSaturate]
  split
  · next hop => -- quotient and remainder
    have hnone : lookedUp? head [dst, a, b, c] = none := by simp only [lookedUp?, hop]
    have htype : computedType ctx head [dst, a, b, c] = .uint := by
      rw [computedType_of_lookedUp?_eq_none hnone, hop]
      rfl
    rw [htype]
    apply limitedAlike_both
    · apply limitedAlike_toDestination hdst
      intro d hd
      apply alike_bind
      apply alike_bind
      exact limitedAlike_assignment hd head _ _
    · apply limitedAlike_toDestination hsecond
      intro d hd
      apply alike_bind
      apply alike_bind
      exact limitedAlike_assignment hd head _ _
  · next hop =>
    have hnone : lookedUp? head [dst, a, b, c] = none := by simp only [lookedUp?, hop]
    rw [computedType_of_lookedUp?_eq_none hnone]
    exact limitedAlike_multiplyWide b c hdst hsecond (by rw [hop]; decide)
  · next hop =>
    have hnone : lookedUp? head [dst, a, b, c] = none := by simp only [lookedUp?, hop]
    rw [computedType_of_lookedUp?_eq_none hnone]
    exact limitedAlike_multiplyWide b c hdst hsecond (by rw [hop]; decide)
  · next hop =>
    exact limitedAlike_sample hdst (by simp only [lookedUp?, hop]) (by simp [hop]) .plain
  · next hop =>
    exact limitedAlike_fetch hdst (by simp only [lookedUp?, hop]) (by simp [hop]) (some c)
  · next hdiv himul humul hsample hldMs =>
    have hnone : lookedUp? head [dst, a, b, c] = none := by
      unfold lookedUp?
      split <;> simp_all
    rw [computedType_of_lookedUp?_eq_none hnone]
    apply limitedAlike_toDestination hdst
    intro d hd
    cases ternaryForm? head.opcode with
    | none => exact limitedAlike_unmapped head
    | some form =>
      apply alike_bind
      exact limitedAlike_assignment hd head _ _

theorem limitedAlike_general (outside : Bool) (head : OperationHead) (operands : List Operand) :
    LimitedAlike ctx operands (computedType ctx head operands) copies
      (general ctx copies outside (head.withSaturate false) operands)
      (general ctx copies outside (head.withSaturate true) operands) := by
  have hcomment : LimitedAlike ctx operands (computedType ctx head operands) copies
      (pure [controlFlowComment (head.withSaturate false) operands])
      (pure [controlFlowComment (head.withSaturate true) operands]) :=
    alike_pure (.cons (.other rfl) .nil)
  unfold general
  simp only [opcode_withSaturate]
  split
  case h_1 => -- a return, with copies in front of it
    split
    · apply alike_pure
      apply List.rel_append
      · show List.Forall₂ _ (copies.map Statement.assign) (copies.map Statement.assign)
        rw [List.forall₂_map_left_iff, List.forall₂_map_right_iff, List.forall₂_same]
        intro a ha
        exact .copy ha
      · exact .cons (.other rfl) .nil
    · exact hcomment
  case h_2 => -- conditional exits
    split
    · apply alike_bind
      exact alike_pure (.cons (.other rfl) .nil)
    · exact hcomment
  case h_3 =>
    split
    · apply alike_bind
      exact alike_pure (.cons (.other rfl) .nil)
    · exact hcomment
  case h_23 hop =>
    exact limitedAlike_sample List.mem_cons_self (by simp only [lookedUp?, hop])
      (by simp [hop]) _
  case h_24 hop =>
    exact limitedAlike_sample List.mem_cons_self (by simp only [lookedUp?, hop])
      (by simp [hop]) _
  case h_25 hop =>
    exact limitedAlike_sample List.mem_cons_self (by simp only [lookedUp?, hop])
      (by simp [hop]) _
  case h_26 => exact limitedAlike_unmapped head
  all_goals exact hcomment

variable (ctx copies) in
/-- **An operation is lowered alike** whether its result saturates or not: the trace is the same,
and so are the statements but for the limits. -/
theorem limitedAlike_operation (outside : Bool) (head : OperationHead) (operands : List Operand) :
    LimitedAlike ctx operands (computedType ctx head operands) copies
      (operation ctx copies outside (head.withSaturate false) operands)
      (operation ctx copies outside (head.withSaturate true) operands) := by
  match operands with
  | [dst, src] => exact limitedAlike_unary head dst src
  | [dst, a, b] => exact limitedAlike_binary head dst a b
  | [dst, a, b, c] => exact limitedAlike_ternary head dst a b c
  | [] | [_] | _ :: _ :: _ :: _ :: _ :: _ => exact limitedAlike_general outside head _

end

/-! ### Text

The text of a limited value is that of the value with the text of a call around it. A conversion may
put another call around both. -/

/-- Lines, and the same lines if in the value of an assignment a float is limited. -/
inductive LimitedLines (type : NumberType) : List String → List String → Prop
  | same (lines : List String) : LimitedLines type lines lines
  | wrapped (target opening value closing : String) : type = .float →
      LimitedLines type [target ++ " = " ++ opening ++ value ++ closing ++ ";"]
        [target ++ " = " ++ opening ++ ("clamp(" ++ value ++ ", 0.0, 1.0)") ++ closing ++ ";"]

/-- A conversion is written around the value. -/
theorem exists_text_convert (source target : NumberType) (lanes : Nat) :
    ∃ opening closing : String, ∀ value : Expr,
      (value.convert source target lanes).text = opening ++ value.text ++ closing := by
  -- a conversion is a function or a constructor, written around the value
  have hcall (f : Function) (value : Expr) :
      (Expr.call f [value]).text = (f.text ++ "(") ++ value.text ++ ")" := by
    simp [Expr.text, Expr.textOfArguments, Expr.textOfMoreArguments, String.append_assoc]
  have hconstruct (type : ValueType) (value : Expr) :
      (Expr.construct type [value]).text = (type.text ++ "(") ++ value.text ++ ")" := by
    simp [Expr.text, Expr.textOfArguments, Expr.textOfMoreArguments, String.append_assoc]
  unfold Expr.convert
  split
  · exact ⟨"", "", fun value => by simp⟩
  · split
    · exact ⟨_, _, hcall _⟩
    · exact ⟨_, _, hcall _⟩
    · exact ⟨_, _, hcall _⟩
    · exact ⟨_, _, hcall _⟩
    · exact ⟨_, _, hconstruct _⟩

theorem Limited.lines {ctx : Context} {operands : List Operand} {type : NumberType}
    {copies : List Assignment} {s s' : Statement} (h : Limited ctx operands type copies s s') :
    LimitedLines type s.lines s'.lines := by
  cases h with
  | @computed d value hd =>
    -- only floats are limited
    by_cases htype : type = .float
    · subst htype
      obtain ⟨opening, closing, htext⟩ := exists_text_convert .float d.type d.width
      have hlines (value : Expr) :
          (Statement.assign ⟨d.target, value.convert .float d.type d.width⟩).lines
            = [d.target.text ++ " = " ++ opening ++ value.text ++ closing ++ ";"] := by
        show [toString d.target.text ++ " = " ++ toString _ ++ ";"] = _
        simp only [htext, toString, String.append_assoc]
      rw [hlines, hlines, text_limited]
      exact .wrapped _ _ _ _ rfl
    · rw [limited, if_neg htype]
      exact .same _
  | copy | product | other => exact .same _

end Glsl
end ShaderBytecode
