import ShaderBytecode.Notice
import ShaderBytecode.WordStep

/-!
# Lowering that leaves a trace

Lowering an operand may have something to say, and may fall back to reading a constant buffer as
plain rows, which then have to be declared. It computes with slots and offsets too. All of this is
kept beside the result, in the order in which it comes up.
-/

namespace ShaderBytecode
namespace Glsl

/-- A result with what lowering came across on the way. -/
structure Traced (α : Type) where
  value : α
  notices : List Notice
  /-- The slots of the constant buffers that are read as plain rows. -/
  rawSlots : List UInt32
  /-- The computations with words. -/
  steps : List WordStep

namespace Traced

def of (a : α) : Traced α := ⟨a, [], [], []⟩

instance : Monad Traced where
  pure := of
  bind x f :=
    let y := f x.value
    ⟨y.value, x.notices ++ y.notices, x.rawSlots ++ y.rawSlots, x.steps ++ y.steps⟩

instance : LawfulMonad Traced :=
  .mk' Traced (fun x => by simp [Functor.map, of]) (fun _ _ => rfl)
    (fun x f g => by simp [Bind.bind])

def notice (n : Notice) : Traced Unit := ⟨(), [n], [], []⟩

/-- Leave the slot of a constant buffer that is read as plain rows. -/
def rawSlot (slot : UInt32) : Traced Unit := ⟨(), [], [slot], []⟩

def compute (steps : List WordStep) : Traced Unit := ⟨(), [], [], steps⟩

@[simp] theorem value_pure (a : α) : (pure a : Traced α).value = a := rfl

@[simp] theorem value_bind (x : Traced α) (f : α → Traced β) :
    (x >>= f).value = (f x.value).value := rfl

@[simp] theorem notices_bind (x : Traced α) (f : α → Traced β) :
    (x >>= f).notices = x.notices ++ (f x.value).notices := rfl

@[simp] theorem rawSlots_bind (x : Traced α) (f : α → Traced β) :
    (x >>= f).rawSlots = x.rawSlots ++ (f x.value).rawSlots := rfl

@[simp] theorem steps_bind (x : Traced α) (f : α → Traced β) :
    (x >>= f).steps = x.steps ++ (f x.value).steps := rfl

end Traced
end Glsl
end ShaderBytecode
