import ShaderBytecode.Container.Decode
import ShaderBytecode.Container.Scan
import ShaderBytecode.Files.Workspace
import ShaderBytecode.Glsl.Emit

/-!
# Extraction

A file may hold any number of containers. Each of them is written to a file of its own, which is
named after the file it comes from and the number it has there; its shader can be written beside it.

The files are handled one by one. One that cannot be read, or whose containers cannot all be
written, counts as unreadable and does not count otherwise, but what was written for it stays.
-/

namespace ShaderBytecode

/-! ### Outputs -/

def Container.embedded (data : Bytes) : List Bytes :=
  (Container.find data).map fun (start, stop) => data.extract start stop

/-- A file to be written: what is added to the name of the file it comes from, and its content. -/
structure Output where
  suffix : String
  content : Bytes
deriving DecidableEq, Repr

inductive ShaderFault where
  | refused (cause : ContainerError)
  /-- A computation of emitting it leaves its range. -/
  | outOfRange (step : WordStep)
deriving DecidableEq, Repr

/-- The shader of a container, if shaders are asked for. -/
def shaderOf? (options : Option Glsl.Options) (blob : Bytes) :
    Option (Except ShaderFault String) :=
  options.map fun o => do
    let c ← (Container.decode blob).mapError .refused
    (Glsl.emit? o c).mapError .outOfRange

def outputsOf (options : Option Glsl.Options) (blob : Bytes) (number : Nat) : List Output :=
  ⟨s!".{number}.dxbc", blob⟩ ::
    match shaderOf? options blob with
    | some (.ok glsl) => [⟨s!".{number}.glsl", Utf8.encode glsl⟩]
    | _ => []

/-- A shader is asked for and cannot be had. -/
def hasNoShader (options : Option Glsl.Options) (blob : Bytes) : Bool :=
  match shaderOf? options blob with
  | some (.error _) => true
  | _ => false

/-! ### Files -/

structure Tally where
  containers : Nat
  /-- Containers whose shader could not be had. -/
  failed : Nat
  unreadable : Nat
deriving DecidableEq, Repr

namespace Tally

def none : Tally := ⟨0, 0, 0⟩

def unreadableFile : Tally := ⟨0, 0, 1⟩

def add (s t : Tally) : Tally :=
  ⟨s.containers + t.containers, s.failed + t.failed, s.unreadable + t.unreadable⟩

end Tally

/-- Where files are taken from, where they go, and which shaders are asked for. -/
structure Extraction where
  input : Path
  output : Path
  options : Option Glsl.Options

namespace Extraction

variable {m : Type → Type} [Monad m] [Workspace m]

/-- Write files that are named after `names`, below the output folder, until one cannot be. -/
def writeAll (x : Extraction) (names : List String) (outputs : List Output) :
    ExceptT FileFault m Unit :=
  outputs.forM fun o =>
    ExceptT.mk (Workspace.write (x.output.below (Path.withSuffix names o.suffix)) o.content)

/-- Extract the containers of the file that `names` lead to from the input folder. -/
def extractFile (x : Extraction) (names : List String) : ExceptT FileFault m Tally := do
  let data ← ExceptT.mk (Workspace.read (x.input.below names))
  let blobs := Container.embedded data
  -- no folder is made for a file without containers
  if blobs.isEmpty then return .none
  ExceptT.mk (Workspace.createFolders (x.output.below names.dropLast))
  x.writeAll names (blobs.zipIdx.flatMap fun (blob, number) => outputsOf x.options blob number)
  return ⟨blobs.length, blobs.countP (hasNoShader x.options), 0⟩

def extractFiles (x : Extraction) : List (List String) → m Tally
  | [] => pure .none
  | names :: rest => do
    let tally ←
      match ← (x.extractFile names).run with
      | .ok tally => pure tally
      -- a file that fails does not end the command
      | .error fault => do
        Workspace.log .warning s!"{Path.text (x.input.below names)}: {fault.message}"
        pure Tally.unreadableFile
    return tally.add (← x.extractFiles rest)

end Extraction
end ShaderBytecode
