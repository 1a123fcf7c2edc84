import ShaderBytecode.Precision
import ShaderBytecode.Program.RegisterFile

/-!
# Operands

An operand names a register file and picks a register of it by up to three indices, or carries
literal values. An index is a number, the contents of a register, or the sum of both; the register
is an operand of its own, so operands are trees.

Registers have four lanes. A destination names the lanes it writes by a mask, a source names for
each lane the component it takes: `Operand.laneSource?`.
-/

namespace ShaderBytecode

/-! ### Lanes -/

abbrev Lane := Fin 4

namespace Lane

def x : Lane := ⟨0, by decide⟩
def y : Lane := ⟨1, by decide⟩
def z : Lane := ⟨2, by decide⟩
def w : Lane := ⟨3, by decide⟩

/-- The component with a number; numbers are counted round the four. -/
def ofNat (n : Nat) : Lane := ⟨n % 4, Nat.mod_lt n (by decide)⟩

def letter : Lane → Char
  | 0 => 'x'
  | 1 => 'y'
  | 2 => 'z'
  | 3 => 'w'

end Lane

/-- A set of lanes, `x` in the lowest bit. -/
abbrev LaneMask := BitVec 4

namespace LaneMask

/-- The lanes in a mask, in ascending order. -/
def lanes (mask : LaneMask) : List Lane :=
  (List.finRange 4).filter fun lane => mask.getLsbD lane.val

def all : LaneMask := 0xF

def first (count : Nat) : LaneMask := BitVec.ofNat 4 ((1 <<< min count 4) - 1)

def single (lane : Lane) : LaneMask := BitVec.ofNat 4 (1 <<< lane.val)

/-- The number of lanes an expression for a mask has, at least one. -/
def width (mask : LaneMask) : Nat := max mask.lanes.length 1

/-- The mask itself, or the first lane if it is empty. -/
def orFirst (mask : LaneMask) : LaneMask := if mask = 0 then single .x else mask

end LaneMask

/-- How an operand of four components selects them. -/
inductive ComponentSelection where
  /-- The lanes that are written. -/
  | mask (lanes : LaneMask)
  /-- For each lane the component it takes. -/
  | swizzle (x y z w : Lane)
  /-- One component for all lanes. -/
  | single (component : Lane)
deriving DecidableEq, Repr

inductive Components where
  | zero
  | one
  | four (selection : ComponentSelection)
  | many
deriving DecidableEq, Repr

/-! ### Indices -/

inductive IndexRepresentation where
  | immediate32
  | immediate64
  | relative
  | immediate32PlusRelative
  | immediate64PlusRelative
deriving DecidableEq, Repr

namespace IndexRepresentation

def all : List IndexRepresentation :=
  [immediate32, immediate64, relative, immediate32PlusRelative, immediate64PlusRelative]

def name : IndexRepresentation → String
  | immediate32 => "Immediate32"
  | immediate64 => "Immediate64"
  | relative => "Relative"
  | immediate32PlusRelative => "Immediate32PlusRelative"
  | immediate64PlusRelative => "Immediate64PlusRelative"

end IndexRepresentation

/-! ### Literals -/

/-- What is done to the value of a source. -/
inductive OperandModifier where
  | none
  | neg
  | abs
  | absNeg
deriving DecidableEq, Repr

namespace OperandModifier

def all : List OperandModifier := [none, neg, abs, absNeg]

def name : OperandModifier → String
  | none => "None"
  | neg => "Neg"
  | abs => "Abs"
  | absNeg => "AbsNeg"

end OperandModifier

/-- The bits of literal values. The instruction that uses them gives them a type. -/
inductive Literals where
  | bits32 (values : List UInt32)
  | bits64 (values : List UInt64)
deriving DecidableEq, Repr

namespace Literals

def length : Literals → Nat
  | bits32 values => values.length
  | bits64 values => values.length

/-- The value for a lane; a value that stands alone is for every lane. -/
def valueAt? (values : List α) (lane : Nat) : Option α :=
  match values[lane]?, values with
  | some v, _ => some v
  | none, [v] => some v
  | none, _ => none

def word? : Literals → (lane : Nat) → Option UInt32
  | bits32 values, lane => valueAt? values lane
  | bits64 _, _ => none

def wide? : Literals → (lane : Nat) → Option UInt64
  | bits32 _, _ => none
  | bits64 values, lane => valueAt? values lane

end Literals

/-! ### Operands -/

structure OperandHead where
  /-- The word the operand begins with. -/
  token : UInt32
  file : RegisterFile
  components : Components
  modifier : OperandModifier
  minPrecision : MinPrecision
  nonUniform : Bool
deriving DecidableEq, Repr

mutual

inductive Operand where
  | mk (head : OperandHead) (indices : Indices) (literals : Option Literals)

inductive Indices where
  | nil
  /-- A number. -/
  | fixed (representation : IndexRepresentation) (value : UInt64) (rest : Indices)
  /-- A number that is added to the contents of a register. -/
  | relative (representation : IndexRepresentation) (value : UInt64) (base : Operand)
      (rest : Indices)

end

structure Index where
  representation : IndexRepresentation
  /-- The number that is part of the index, zero if there is none. -/
  value : UInt64
  /-- The register that is part of the index. -/
  base : Option Operand

namespace Indices

def toList : Indices → List Index
  | nil => []
  | fixed representation value rest => ⟨representation, value, none⟩ :: rest.toList
  | relative representation value base rest => ⟨representation, value, some base⟩ :: rest.toList

def cons (i : Index) (rest : Indices) : Indices :=
  match i.base with
  | none => fixed i.representation i.value rest
  | some base => relative i.representation i.value base rest

def ofList : List Index → Indices
  | [] => nil
  | i :: rest => cons i (ofList rest)

@[simp] theorem toList_cons (i : Index) (rest : Indices) :
    (cons i rest).toList = i :: rest.toList := by
  obtain ⟨r, v, b⟩ := i
  cases b <;> rfl

@[simp] theorem toList_ofList (l : List Index) : (ofList l).toList = l := by
  induction l with
  | nil => rfl
  | cons i l ih => simp [ofList, ih]

end Indices

namespace Operand

def head : Operand → OperandHead
  | mk head _ _ => head

def literals : Operand → Option Literals
  | mk _ _ literals => literals

def indices : Operand → List Index
  | mk _ indices _ => indices.toList

def file (o : Operand) : RegisterFile := o.head.file

def components (o : Operand) : Components := o.head.components

/-- The number part of the first index, which for most files is the register number. -/
def register? (o : Operand) : Option UInt64 := o.indices.head?.map (·.value)

/-- The number part of the last index. -/
def lastIndexValue? (o : Operand) : Option UInt64 := o.indices.getLast?.map (·.value)

def isNull (o : Operand) : Bool := o.file == .null

end Operand

/-! ### Lanes of an operand -/

namespace Components

/-- The component that feeds a lane, if the lane is selected. -/
def laneSource? : Components → (lane : Nat) → Option Lane
  | four (.mask mask), lane =>
    if h : lane < 4 then if mask.getLsbD lane then some ⟨lane, h⟩ else none else none
  | four (.swizzle x y z w), lane => [x, y, z, w][lane]?
  | four (.single component), _ => some component
  | one, _ => some 0
  | zero, _ | many, _ => none

def writeMask : Components → LaneMask
  | four (.mask mask) => mask
  | four _ => .all
  | one => .single .x
  | zero | many => 0

/-- The components that feed the lanes of a mask, where there are four to choose from. -/
def selected : Components → LaneMask → List Lane
  | four selection, mask => mask.lanes.filterMap fun lane => (four selection).laneSource? lane.val
  | _, _ => []

end Components

/-- The text of a selection: a point and the letters of the components, or nothing at all. -/
def Lane.selectionText (lanes : List Lane) : String :=
  if lanes.isEmpty then "" else "." ++ String.ofList (lanes.map Lane.letter)

namespace Operand

def laneSource? (o : Operand) (lane : Nat) : Option Lane := o.components.laneSource? lane

def writeMask (o : Operand) : LaneMask := o.components.writeMask

def selected (o : Operand) (mask : LaneMask) : List Lane := o.components.selected mask

end Operand

/-! ### Operands within operands -/

mutual

/-- The operand and all operands within it: each is followed by those of its indices, in their
order. -/
def Operand.preorder : Operand → List Operand
  | .mk head indices literals => .mk head indices literals :: indices.preorder

def Indices.preorder : Indices → List Operand
  | .nil => []
  | .fixed _ _ rest => rest.preorder
  | .relative _ _ base rest => base.preorder ++ rest.preorder

end

theorem Indices.preorder_eq (is : Indices) :
    is.preorder = (is.toList.filterMap Index.base).flatMap Operand.preorder := by
  cases is with
  | nil => rfl
  | fixed _ _ rest => exact rest.preorder_eq
  | relative _ _ base rest =>
    rw [preorder, rest.preorder_eq]
    rfl

/-- An operand is followed by the registers in its indices, each with the operands within it. -/
theorem Operand.preorder_eq (o : Operand) :
    o.preorder = o :: (o.indices.filterMap Index.base).flatMap preorder := by
  obtain ⟨head, indices, literals⟩ := o
  rw [preorder, indices.preorder_eq]
  rfl

mutual

/-- What holds of an operand whenever it holds of the registers in its indices holds of every
operand. -/
theorem Operand.bases_induction {motive : Operand → Prop}
    (step : ∀ o : Operand, (∀ i ∈ o.indices, ∀ base ∈ i.base, motive base) → motive o)
    (o : Operand) : motive o := by
  cases o with
  | mk head indices literals =>
    exact step (.mk head indices literals) (indices.forall_bases step)

theorem Indices.forall_bases {motive : Operand → Prop}
    (step : ∀ o : Operand, (∀ i ∈ o.indices, ∀ base ∈ i.base, motive base) → motive o)
    (is : Indices) : ∀ i ∈ is.toList, ∀ base ∈ i.base, motive base := by
  cases is with
  | nil => nofun
  | fixed _ _ rest => exact List.forall_mem_cons.2 ⟨nofun, rest.forall_bases step⟩
  | relative _ _ base rest =>
    refine List.forall_mem_cons.2 ⟨?_, rest.forall_bases step⟩
    rintro _ ⟨⟩
    exact base.bases_induction step

end

end ShaderBytecode
