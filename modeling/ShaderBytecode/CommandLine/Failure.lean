import ShaderBytecode.Container.RoundTrip
import ShaderBytecode.Files.Basic
import ShaderBytecode.Glob
import ShaderBytecode.WordStep

/-!
# Why a command fails

A failed command says what it was about to do and lists the causes, each of which is explained by
the next. A cause that only passes another one on still counts as a cause of its own.
-/

namespace ShaderBytecode

/-! ### Causes -/

/-- The wordings of a failed read and of what explains it. -/
def ReadError.chain (e : ReadError) : List String :=
  e.message ::
    match e with
    | text fault => [fault.message]
    | _ => []

def DecodeError.chain (e : DecodeError) : List String :=
  e.message ::
    match e with
    | read cause => cause.chain
    | _ => []

def ContainerError.chain (e : ContainerError) : List String :=
  e.message ::
    match e with
    | read cause => cause.chain
    | chunk _ cause => cause.chain
    | _ => []

inductive TextFault where
  | file (fault : FileFault)
  /-- The bytes are not UTF-8. -/
  | encoding
deriving DecidableEq, Repr

def TextFault.message : TextFault → String
  | file fault => fault.message
  | encoding => "stream did not contain valid UTF-8"

/-! ### Failures -/

inductive Failure where
  | readInput (fault : FileFault)
  | decodeInput (cause : ContainerError)
  | encodeInput (cause : ContainerError)
  /-- A container does not come back: the first position that differs, and both lengths. -/
  | mismatch (position inputSize outputSize : Nat)
  | readBindings (path : String) (fault : TextFault)
  | writeOutput (fault : FileFault)
  | filter (cause : Glob.PatternError)
  | createOutput (fault : FileFault)
  /-- A computation of emitting a shader leaves its range. -/
  | emission (step : WordStep)
deriving DecidableEq, Repr

namespace Failure

def ofRoundTrip : Container.RoundTripError → Failure
  | .decode cause => decodeInput cause
  | .encode cause => encodeInput cause
  | .mismatch position inputSize outputSize => mismatch position inputSize outputSize

/-- What a command was about to do, or for a failure without causes what is wrong. -/
def summary : Failure → String
  | readInput _ => "Failed to read input file"
  | decodeInput _ => "Failed to parse DXBC container"
  | encodeInput _ => "Failed to serialize container"
  | mismatch position inputSize outputSize =>
    s!"Round-trip mismatch at byte {Hex.literal position} "
      ++ s!"(input {inputSize} bytes, output {outputSize} bytes)"
  | readBindings path _ => s!"Failed to read bindings file {path}"
  | writeOutput _ => "Failed to write output file"
  | filter _ => "Invalid filter pattern"
  | createOutput fault => fault.message
  | emission step => step.message

/-- The causes, each explained by the next. -/
def causes : Failure → List String
  | readInput fault | writeOutput fault => [fault.message]
  | decodeInput cause | encodeInput cause => cause.chain
  | readBindings _ fault => [fault.message]
  | filter cause => [cause.message]
  | mismatch .. | createOutput _ | emission _ => []

/-- The lines of a list of causes. A single cause has no number. -/
def causeLines : List String → List String
  | [] => []
  | [cause] => ["", "Caused by:", "    " ++ cause]
  | causes =>
    ["", "Caused by:"] ++ causes.zipIdx.map fun (cause, i) => s!"    {i}: {cause}"

def report (f : Failure) : String :=
  String.join ((s!"Error: {f.summary}" :: causeLines f.causes).map (· ++ "\n"))

end Failure
end ShaderBytecode
