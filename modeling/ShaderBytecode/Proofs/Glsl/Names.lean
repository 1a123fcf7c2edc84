import ShaderBytecode.Proofs.Glsl.Execution
import ShaderBytecode.Proofs.Glsl.WordRange

/-!
# What the names in a body stand for

The expressions in the body of a shader are made from operands, and no name gets into them by
chance. A member of a uniform block is the variable of a constant buffer that is bound at a slot, a
sampler is that of a texture of the shader, and where the rows of a constant buffer are named, the
slot has been left behind in the trace.

    Access.grounded_combine : components of a buffer that are put together have grounded names, if
                              the members that they name are variables of the buffer
    Traced.Yields.bind      : what each step yields, the steps yield one after the other

A trace belongs to a whole run while a name belongs to one expression of it. So a property of values
is carried through lowering under the assumption that all slots of the trace are among some given
ones (`Traced.Yields`), and the run as a whole then gives its own.

Halves of products are apart from this. They are declared in a block of their own, which the value
of one assignment stands in, and are named nowhere else.
-/

namespace ShaderBytecode
namespace Glsl

/-! ### Names

Names are collected by recursion on expressions. Whether they are declared is no question here. -/

mutual

/-- The names in an expression. -/
def Expr.names : Expr → List Name
  | .name n => [n]
  | .element array position => array.names ++ position.names
  | .components vector _ => vector.names
  | .call _ arguments | .construct _ arguments => Expr.namesOfAll arguments
  | .unary _ operand => operand.names
  | .binary _ left right => left.names ++ right.names
  | .choose condition yes no => condition.names ++ yes.names ++ no.names
  | .group inner => inner.names
  | .integer _ | .unsigned _ | .pattern _ | .float _ | .double _ => []

/-- The names in some expressions. -/
def Expr.namesOfAll : List Expr → List Name
  | [] => []
  | e :: es => e.names ++ Expr.namesOfAll es

end

theorem Expr.namesOfAll_eq (es : List Expr) : Expr.namesOfAll es = es.flatMap Expr.names := by
  induction es with
  | nil => rfl
  | cons e es ih => rw [namesOfAll, ih, List.flatMap_cons]

/-- The names in an assignment. -/
def Assignment.names (a : Assignment) : List Name := a.target.names ++ a.value.names

/-- The names in a statement. -/
def Statement.names : Statement → List Name
  | .declare _ n | .declareArray _ n _ => [n]
  | .assign a => a.names
  | .wideProduct _ _ left right high => left.names ++ right.names ++ high.names
  | .discardIf condition => condition.names
  | .returnIf condition copies => condition.names ++ copies.flatMap Assignment.names
  | .comment _ | .leave | .unmapped _ => []

/-- The names in the body of a shader. -/
def Shader.names (s : Shader) : List Name := s.body.flatMap Statement.names

/-! ### Grounds

A ground is what a name was made from. The variable of a member must belong to a buffer that is
bound at some slot, but to which one cannot be seen from the name. -/

section

variable (ctx : Context) (raw : UInt32 → Prop)

/-- What a name in a body has to stand for, where `raw` tells the slots that are read as plain
rows. -/
def Name.Grounded : Name → Prop
  | .member id =>
    ∃ slot, ∃ buffer ∈ ctx.bufferAt? slot, ∃ v ∈ buffer.vars, identifier v.name = id
  | .sampler id => ∃ t ∈ ctx.textures, identifier t.name = id
  | .bufferRows slot => raw slot
  | .register _ _ | .immediateBuffer | .provided _ | .high | .low => True

/-- All names in an expression are grounded, and none of them is a half of a product. -/
def Expr.Grounded (e : Expr) : Prop := ∀ n ∈ e.names, n.Grounded ctx raw ∧ n.isHalf = false

/-- All names in an assignment are grounded. -/
def Assignment.Grounded (a : Assignment) : Prop :=
  a.target.Grounded ctx raw ∧ a.value.Grounded ctx raw

/-- All names in a statement are grounded. -/
def Statement.Grounded (s : Statement) : Prop := ∀ n ∈ s.names, n.Grounded ctx raw

/-- A statement with grounded names that neither declares anything nor leaves `main`. The halves of
a product are named only by the value of its own assignment. -/
def Statement.Plain : Statement → Prop
  | .comment _ | .unmapped _ => True
  | .assign a => a.Grounded ctx raw
  | .wideProduct _ _ left right high =>
    left.Grounded ctx raw ∧ right.Grounded ctx raw ∧ high.target.Grounded ctx raw ∧
      ∀ n ∈ high.value.names, n.Grounded ctx raw
  | _ => False

end

/-! Every way of building an expression has its lemma for `simp`, which then settles what an
operation is lowered to. -/

section

variable {ctx : Context} {raw : UInt32 → Prop}

namespace Expr

theorem grounded_name {n : Name} (h : n.isHalf = false) :
    (name n).Grounded ctx raw ↔ n.Grounded ctx raw := by
  simp [Grounded, names, h]

@[simp] theorem grounded_register {file : RegisterFile} {number : Nat} :
    (name (.register file number)).Grounded ctx raw := (grounded_name rfl).2 trivial

@[simp] theorem grounded_immediateBuffer : (name .immediateBuffer).Grounded ctx raw :=
  (grounded_name rfl).2 trivial

@[simp] theorem grounded_bufferRows {slot : UInt32} :
    (name (.bufferRows slot)).Grounded ctx raw ↔ raw slot := grounded_name rfl

@[simp] theorem grounded_provided {v : ProvidedVariable} :
    (name (.provided v)).Grounded ctx raw := (grounded_name rfl).2 trivial

@[simp] theorem grounded_element {array position : Expr} :
    (element array position).Grounded ctx raw ↔
      array.Grounded ctx raw ∧ position.Grounded ctx raw :=
  List.forall_mem_append

@[simp] theorem grounded_components {vector : Expr} {lanes : List Lane} :
    (components vector lanes).Grounded ctx raw ↔ vector.Grounded ctx raw := Iff.rfl

@[simp] theorem grounded_call {f : Function} {es : List Expr} :
    (call f es).Grounded ctx raw ↔ ∀ e ∈ es, e.Grounded ctx raw := by
  simp only [Grounded, names, namesOfAll_eq, List.forall_mem_flatMap]

@[simp] theorem grounded_construct {type : ValueType} {es : List Expr} :
    (construct type es).Grounded ctx raw ↔ ∀ e ∈ es, e.Grounded ctx raw := by
  simp only [Grounded, names, namesOfAll_eq, List.forall_mem_flatMap]

@[simp] theorem grounded_unary {operator : UnaryOperator} {e : Expr} :
    (unary operator e).Grounded ctx raw ↔ e.Grounded ctx raw := Iff.rfl

@[simp] theorem grounded_binary {operator : BinaryOperator} {left right : Expr} :
    (binary operator left right).Grounded ctx raw ↔
      left.Grounded ctx raw ∧ right.Grounded ctx raw :=
  List.forall_mem_append

@[simp] theorem grounded_choose {condition yes no : Expr} :
    (choose condition yes no).Grounded ctx raw ↔
      condition.Grounded ctx raw ∧ yes.Grounded ctx raw ∧ no.Grounded ctx raw := by
  simp only [Grounded, names, List.forall_mem_append, and_assoc]

@[simp] theorem grounded_group {e : Expr} :
    (group e).Grounded ctx raw ↔ e.Grounded ctx raw := Iff.rfl

theorem grounded_of_names_eq_nil {e : Expr} (h : e.names = []) : e.Grounded ctx raw := by
  simp [Grounded, h]

@[simp] theorem grounded_integer {n : Int} : (integer n).Grounded ctx raw :=
  grounded_of_names_eq_nil rfl

@[simp] theorem grounded_natural {n : Nat} : (natural n).Grounded ctx raw :=
  grounded_of_names_eq_nil rfl

@[simp] theorem grounded_unsigned {n : UInt32} : (unsigned n).Grounded ctx raw :=
  grounded_of_names_eq_nil rfl

@[simp] theorem grounded_pattern {n : UInt32} : (pattern n).Grounded ctx raw :=
  grounded_of_names_eq_nil rfl

@[simp] theorem grounded_float {bits : UInt32} : (float bits).Grounded ctx raw :=
  grounded_of_names_eq_nil rfl

@[simp] theorem grounded_double {bits : UInt64} : (double bits).Grounded ctx raw :=
  grounded_of_names_eq_nil rfl

@[simp] theorem grounded_trueBits : trueBits.Grounded ctx raw := grounded_of_names_eq_nil rfl

@[simp] theorem grounded_falseBits : falseBits.Grounded ctx raw := grounded_of_names_eq_nil rfl

@[simp] theorem grounded_one : one.Grounded ctx raw := grounded_of_names_eq_nil rfl

@[simp] theorem grounded_zero : zero.Grounded ctx raw := grounded_of_names_eq_nil rfl

/-! ### Building expressions

What is built with several steps keeps the names of its parts. -/

@[simp] theorem names_convert {e : Expr} {source target : NumberType} {width : Nat} :
    (e.convert source target width).names = e.names := by
  unfold convert
  split
  · rfl
  · split <;> simp [names, namesOfAll]

@[simp] theorem grounded_select {e : Expr} {lanes : List Lane} :
    (e.select lanes).Grounded ctx raw ↔ e.Grounded ctx raw := by
  unfold select
  split <;> simp

@[simp] theorem grounded_convert {e : Expr} {source target : NumberType} {width : Nat} :
    (e.convert source target width).Grounded ctx raw ↔ e.Grounded ctx raw := by
  rw [Grounded, names_convert, Grounded]

@[simp] theorem grounded_zeroAs {type : NumberType} {width : Nat} :
    (zeroAs type width).Grounded ctx raw := by
  simp [zeroAs]

theorem grounded_floatLiteral (bits : UInt32) : (floatLiteral bits).Grounded ctx raw := by
  unfold floatLiteral
  split <;> simp

theorem grounded_doubleLiteral (bits : UInt64) : (doubleLiteral bits).Grounded ctx raw := by
  unfold doubleLiteral
  split <;> simp

theorem grounded_of_literal? {literals : Literals} {lane : Lane} {type : NumberType} {e : Expr}
    (h : literal? literals lane type = some e) : e.Grounded ctx raw := by
  unfold literal? at h
  split at h
  · -- a literal has one lane or four, and the value is spelled out for its type
    obtain ⟨bits, -, rfl⟩ := Option.map_eq_some_iff.1 h
    cases type <;> simp [literal32, signed, grounded_floatLiteral, grounded_doubleLiteral]
  · obtain ⟨bits, -, rfl⟩ := Option.map_eq_some_iff.1 h
    cases type <;> simp [literal64, signed, grounded_floatLiteral, grounded_doubleLiteral]

end Expr

@[simp] theorem grounded_modify {m : OperandModifier} {e : Expr} :
    (modify m e).Grounded ctx raw ↔ e.Grounded ctx raw := by
  cases m <;> simp [modify]

@[simp] theorem grounded_registerLanes {components : Components} {mask : LaneMask} {s : Storage} :
    (registerLanes components mask s).Grounded ctx raw ↔ s.expr.Grounded ctx raw := by
  unfold registerLanes
  split
  · simp
  · split <;> simp

theorem grounded_samplerAt {t : Texture} (h : t ∈ ctx.textures) (slot : Nat) :
    (t.samplerAt slot).Grounded ctx raw := by
  have hname : (Expr.name (.sampler (identifier t.name))).Grounded ctx raw :=
    (Expr.grounded_name rfl).2 ⟨t, h, rfl⟩
  unfold Texture.samplerAt
  dsimp only
  split
  · simp [hname]
  · exact hname

namespace Access

/-- The members that are found in a buffer are those of its variables. -/
theorem exists_var_of_resolve {buffer : ConstantBuffer} {dynamic : Bool} {offset : Nat} {a : Access}
    (h : resolve buffer dynamic offset = some a) :
    ∃ v ∈ buffer.vars, identifier v.name = a.member := by
  unfold resolve at h
  split at h
  · cases h
  · next r hr =>
    obtain ⟨hmem, -⟩ := of_resolve_eq_ok hr
    -- whatever its shape, the member is named by the variable that was found
    have hmember : identifier r.found.name = a.member := by
      dsimp only at h
      split at h
      · cases h
      · split at h <;> first | (split at h <;> cases h <;> rfl) | (cases h; rfl)
    exact ⟨r.found, hmem, hmember⟩

theorem grounded_base {a : Access} {row : Option Expr}
    (ha : (Expr.name (.member a.member)).Grounded ctx raw)
    (hrow : ∀ e ∈ row, e.Grounded ctx raw) : (a.base row).Grounded ctx raw := by
  unfold base
  dsimp only
  split
  · exact ha
  · simp [ha]
  · next row _ =>
    have hrow : row.Grounded ctx raw := hrow row rfl
    split <;> simp [ha, hrow]

theorem grounded_combine {accesses : List Access} {row : Option Expr} {type : NumberType}
    (h : ∀ a ∈ accesses, (Expr.name (.member a.member)).Grounded ctx raw)
    (hrow : ∀ e ∈ row, e.Grounded ctx raw) : (combine accesses row type).Grounded ctx raw := by
  -- Components from several places are put together one by one; from one place they are selected.
  have hapart : (Expr.construct ⟨type, accesses.length⟩
      (accesses.map fun a => (a.expr row).convert a.type type 1)).Grounded ctx raw := by
    rw [Expr.grounded_construct, List.forall_mem_map]
    intro a ha
    simp [expr, grounded_base (h a ha) hrow]
  unfold combine
  dsimp only
  split
  · exact hapart
  · next first rest =>
    split
    · simp [grounded_base (h first List.mem_cons_self) hrow]
    · exact hapart

end Access

/-! ### Traces

A property of a value that holds under an assumption about the trace. In a sequence both parts may
use the assumption, since the trace of a part belongs to the whole. -/

namespace Traced

/-- The value has a property if all slots in the trace are among those of `raw`. -/
def Yields (x : Traced α) (raw : UInt32 → Prop) (P : α → Prop) : Prop :=
  (∀ slot ∈ x.rawSlots, raw slot) → P x.value

theorem yields_pure {P : α → Prop} {a : α} (h : P a) : (pure a : Traced α).Yields raw P :=
  fun _ => h

theorem Yields.bind {P : α → Prop} {Q : β → Prop} {x : Traced α} {f : α → Traced β}
    (hx : x.Yields raw P) (hf : ∀ a, P a → (f a).Yields raw Q) : (x >>= f).Yields raw Q := by
  intro hraw
  -- the slots of both traces are among the given ones
  rw [rawSlots_bind, List.forall_mem_append] at hraw
  exact hf x.value (hx hraw.1) hraw.2

theorem Yields.map {P : α → Prop} {Q : β → Prop} {x : Traced α} {f : α → β}
    (hx : x.Yields raw P) (hf : ∀ a, P a → Q (f a)) : (f <$> x).Yields raw Q := by
  rw [map_eq_pure_bind]
  exact hx.bind fun a ha => yields_pure (hf a ha)

theorem Yields.imp {P Q : α → Prop} {x : Traced α} (hx : x.Yields raw P) (h : ∀ a, P a → Q a) :
    x.Yields raw Q :=
  fun hraw => h x.value (hx hraw)

theorem yields_notice (n : Notice) : (notice n).Yields raw fun _ => True :=
  fun _ => trivial

theorem yields_compute (steps : List WordStep) : (compute steps).Yields raw fun _ => True :=
  fun _ => trivial

theorem yields_rawSlot (slot : UInt32) : (rawSlot slot).Yields raw fun _ => raw slot :=
  fun hraw => hraw slot List.mem_cons_self

theorem yields_mapM {P : β → Prop} {f : α → Traced β} {l : List α}
    (h : ∀ a ∈ l, (f a).Yields raw P) : (l.mapM f).Yields raw fun bs => ∀ b ∈ bs, P b := by
  induction l with
  | nil => exact yields_pure (by simp)
  | cons a l ih =>
    rw [List.forall_mem_cons] at h
    rw [List.mapM_cons]
    refine h.1.bind fun b hb => (ih h.2).bind fun bs hbs => yields_pure ?_
    exact List.forall_mem_cons.2 ⟨hb, hbs⟩

end Traced

end
end Glsl
end ShaderBytecode
