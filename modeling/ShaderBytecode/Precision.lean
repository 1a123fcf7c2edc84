/-!
# Minimum precision

A value may be computed in fewer bits than a register has. The least precision it needs is recorded
with operands and with the elements of a signature, by the same codes.
-/

namespace ShaderBytecode

/-- The least precision a value needs. -/
inductive MinPrecision where
  | full
  | float16
  | float10
  | sint16
  | uint16
deriving DecidableEq, Repr, Inhabited

namespace MinPrecision

def all : List MinPrecision := [full, float16, float10, sint16, uint16]

def code : MinPrecision → UInt32
  | full => 0
  | float16 => 1
  | float10 => 2
  | sint16 => 4
  | uint16 => 5

/-- The precision with a code; a code without one asks for full precision. -/
def ofCode (c : UInt32) : MinPrecision := (all.find? (·.code == c)).getD full

def name : MinPrecision → String
  | full => "Default"
  | float16 => "Float16"
  | float10 => "Float2_8"
  | sint16 => "Sint16"
  | uint16 => "Uint16"

@[simp] theorem ofCode_code (p : MinPrecision) : ofCode p.code = p := by
  cases p <;> rfl

end MinPrecision
end ShaderBytecode
