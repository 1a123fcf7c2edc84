import ShaderBytecode.Container.Decode
import ShaderBytecode.Container.Encode

/-!
# Reading and writing back

A container that is read and written back gives the same bytes, unless they hold something that no
part of the container accounts for. `Container.roundTrip` tells where the first difference is.
-/

namespace ShaderBytecode

/-- The first position at which two byte strings differ, which is the end of the shorter one if it
begins the other. -/
def Bytes.firstDifference? : List UInt8 → List UInt8 → Option Nat
  | [], [] => none
  | a :: as, b :: bs => if a = b then (firstDifference? as bs).map (· + 1) else some 0
  | [], _ :: _ | _ :: _, [] => some 0

/-- Byte strings without a difference are equal. -/
theorem Bytes.firstDifference?_eq_none_iff {as bs : List UInt8} :
    firstDifference? as bs = none ↔ as = bs := by
  induction as generalizing bs with
  | nil => cases bs <;> simp [firstDifference?]
  | cons a as ih =>
    cases bs with
    | nil => simp [firstDifference?]
    | cons b bs =>
      by_cases h : a = b
      · simp [firstDifference?, h, ih]
      · simp [firstDifference?, h]

namespace Container

inductive RoundTripError where
  | decode (cause : ContainerError)
  | encode (cause : ContainerError)
  /-- Other bytes were written: the first position that differs, and both lengths. -/
  | mismatch (position inputSize outputSize : Nat)
deriving DecidableEq, Repr

/-- Read a container and write it back, and compare. -/
def roundTrip (data : Bytes) : Except RoundTripError Unit :=
  match decode data with
  | .error cause => .error (.decode cause)
  | .ok c =>
    match c.encode with
    | .error cause => .error (.encode cause)
    | .ok written =>
      match Bytes.firstDifference? data.toList written.toList with
      | none => .ok ()
      | some position => .error (.mismatch position data.size written.size)

end Container
end ShaderBytecode
