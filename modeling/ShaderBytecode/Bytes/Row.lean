/-!
# Rows

A row is four words of 32 bits, the unit in which constant buffers are addressed.
-/

namespace ShaderBytecode

structure Row where
  x : UInt32
  y : UInt32
  z : UInt32
  w : UInt32
deriving DecidableEq, Repr

namespace Row

def toList (r : Row) : List UInt32 := [r.x, r.y, r.z, r.w]

/-- Words taken four at a time; what is left of them at the end makes no row. -/
def ofWords : List UInt32 → List Row
  | x :: y :: z :: w :: rest => ⟨x, y, z, w⟩ :: ofWords rest
  | _ => []

end Row
end ShaderBytecode
