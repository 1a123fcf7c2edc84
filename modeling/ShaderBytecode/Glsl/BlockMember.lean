import ShaderBytecode.Glsl.Shader
import ShaderBytecode.Resource.Definitions

/-!
# Members of uniform blocks

A scalar or vector variable of a constant buffer is declared with its own type, an array of them as
an array of it. Everything else — matrices, structures, doubles — is declared as an array of rows of
four words.

An operand reads a component of a buffer by its byte offset. `Access.resolve` names the member, the
array element and the component that stand there, and `Access.combine` puts the components of an
operand together, as one selection where they all come from one place.
-/

namespace ShaderBytecode
namespace Glsl

/-! ### Declarations -/

inductive MemberShape where
  | scalar
  | vector (columns : Nat)
  /-- An array of scalars or vectors; every element begins a row. -/
  | array (columns length : Nat)
  /-- Plain rows. -/
  | rows (count : Nat)
deriving DecidableEq, Repr

def numberTypeOf : ComponentBase → NumberType
  | .int | .min12Int | .min16Int => .int
  | .bool | .uint | .uint8 | .min16UInt => .uint
  | .double => .double
  | _ => .float

/-- The number type of a member. The words of doubles are read one by one. -/
def memberType (v : Variable) : NumberType :=
  match numberTypeOf v.type.shape.base with
  | .double => .uint
  | t => t

def memberShape (v : Variable) : MemberShape :=
  let shape := v.type.shape
  let simple := shape.variableClass = .scalar ∨ shape.variableClass = .vector
  -- matrices, structures and doubles are read by their rows
  if simple ∧ numberTypeOf shape.base ≠ .double then
    let columns := max shape.columns.toNat 1
    if shape.elements = 0 then if columns = 1 then .scalar else .vector columns
    else .array columns shape.elements.toNat
  else .rows (max ((v.size.toNat + 15) / ConstantBuffer.rowBytes) 1)

def blockMember (v : Variable) : BlockMember :=
  let name := identifier v.name
  let offset := some v.offset
  let type (lanes : Nat) : ValueType := ⟨memberType v, lanes⟩
  match memberShape v with
  | .scalar => ⟨type 1, name, none, offset⟩
  | .vector columns => ⟨type columns, name, none, offset⟩
  | .array columns length => ⟨type columns, name, some length, offset⟩
  | .rows count => ⟨type 4, name, some count, offset⟩

/-! ### Reading -/

structure Access where
  /-- The identifier of the member. -/
  member : String
  /-- The array element, for a member that is an array. -/
  element : Option Nat
  /-- The component, for a member that has several. -/
  component : Option Lane
  type : NumberType
deriving DecidableEq, Repr

namespace Access

/-- The member of `buffer` at a byte offset. If the row is `dynamic`, a run-time value is added to
it, which only an array can take. -/
def resolve (buffer : ConstantBuffer) (dynamic : Bool) (offset : Nat) : Option Access :=
  match buffer.resolve offset with
  | .error _ => none
  | .ok r =>
    let v := r.found
    -- the variable in front of the offset may end before it, and then no member is there
    if v.offset.toNat + max v.size.toNat 4 ≤ offset then none
    else
      let member := identifier v.name
      let component := Lane.ofNat r.component
      let type := memberType v
      match memberShape v with
      -- one register of a block cannot be indexed at run time
      | .scalar => if dynamic then none else some ⟨member, none, none, type⟩
      | .vector _ => if dynamic then none else some ⟨member, none, some component, type⟩
      | .array columns _ =>
        if columns = 1 then some ⟨member, some r.row, none, type⟩
        else some ⟨member, some r.row, some component, type⟩
      | .rows _ => some ⟨member, some r.row, some component, type⟩

/-- The computations on the way to the member at a byte offset. -/
def resolveSteps (buffer : ConstantBuffer) (offset : Nat) : List WordStep :=
  match buffer.resolve offset with
  | .error _ => []
  | .ok r =>
    let first := r.found.offset.toNat
    let size := max r.found.size.toNat 4
    [.difference offset first, .sum first size] ++
      if first + size ≤ offset then [] else [.component r.component]

/-- The member or its element, a run-time row being added to the element. -/
def base (a : Access) (row : Option Expr) : Expr :=
  let member := Expr.name (.member a.member)
  match a.element, row with
  | none, _ => member
  | some n, none => .element member (.natural n)
  | some n, some row =>
    .element member (if n = 0 then row else .binary .add row (.natural n))

def expr (a : Access) (row : Option Expr) : Expr :=
  (a.base row).select a.component.toList

/-- Two components come from one place. -/
def shares (a b : Access) : Bool :=
  b.member == a.member && b.element == a.element && b.type == a.type && b.component.isSome

/-- Components put together to a value of a number type. -/
def combine (accesses : List Access) (row : Option Expr) (type : NumberType) : Expr :=
  let lanes := accesses.length
  let apart := Expr.construct ⟨type, lanes⟩
    (accesses.map fun a => (a.expr row).convert a.type type 1)
  match accesses with
  | [] => apart
  | first :: rest =>
    -- components of one vector are selected together; others are read one by one
    if (first.component.isSome && rest.all first.shares) || lanes == 1 then
      ((first.base row).select (accesses.filterMap (·.component))).convert first.type type lanes
    else apart

end Access
end Glsl
end ShaderBytecode
