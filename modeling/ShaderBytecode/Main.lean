import ShaderBytecode.CommandLine.Perform

/-!
# The command line program

Carries out the command of its arguments on the file system, starting from the current folder. What
is told apart from results goes to the error output, debug messages only for a verbose invocation.
-/

namespace ShaderBytecode

structure ProgramSettings where
  verbose : Bool
  /-- The time at the start, in milliseconds. -/
  started : Nat

def FileFault.ofError : IO.Error → FileFault
  | .noFileOrDirectory _ code details | .interrupted _ code details => numbered code details
  | .alreadyExists _ code details | .invalidArgument _ code details
  | .permissionDenied _ code details | .resourceExhausted _ code details
  | .inappropriateType _ code details | .noSuchThing _ code details => numbered code details
  | .otherError code details | .resourceBusy code details | .resourceVanished code details
  | .unsupportedOperation code details | .hardwareFault code details
  | .unsatisfiedConstraints code details | .illegalOperation code details
  | .protocolError code details | .timeExpired code details => numbered code details
  | .unexpectedEof => .other 0 "end of file"
  | .userError text => .other 0 text
where
  /-- The fault with a number of the operating system, which some operations report negated. -/
  numbered (code : UInt32) (details : String) : FileFault :=
    match min code.toNat (wordLimit - code.toNat) with
    | 2 => .notFound
    | 17 => .alreadyExists
    | 20 => .notAFolder
    | 21 => .isAFolder
    | 36 => .nameTooLong
    | n => .other n details

/-- An action whose system error is a fault. -/
def faulty (action : IO α) : ReaderT ProgramSettings IO (Except FileFault α) := fun _ => do
  return (← action.toBaseIO).mapError FileFault.ofError

/-- The files at or below a path, each by its names behind `names`. What cannot be looked at is left
out, and links are not followed. -/
partial def filesBelow (path : String) (names : List String) : IO (List (List String)) := do
  let place := (← IO.currentDir) / path
  match ← place.symlinkMetadata.toBaseIO with
  | .error _ => return []
  | .ok status =>
    match status.type with
    | .file => return [names]
    | .dir =>
      match ← place.readDir.toBaseIO with
      | .error _ => return []
      | .ok found =>
        let below ← found.toList.mapM fun e =>
          filesBelow s!"{path}/{e.fileName}" (names ++ [e.fileName])
        return below.flatten
    | _ => return []

/-- The program works on the file system. -/
instance : Workspace (ReaderT ProgramSettings IO) where
  read path := faulty do return (← IO.FS.readBinFile path.text).data
  write path content := faulty (IO.FS.writeBinFile path.text ⟨content⟩)
  createFolders path := faulty (IO.FS.createDirAll path.text)
  walk path := filesBelow path.text []
  print text := IO.print text
  log level text := do
    if level = .warning ∨ (← read).verbose then IO.eprintln s!"{level.text} {text}"
  elapsed := do return s!"{(← IO.monoMsNow) - (← read).started}ms"

end ShaderBytecode

open ShaderBytecode

/-- Run the command of the arguments. The exit code is 1 for a failed command and 2 for arguments
that make no command. -/
def main (arguments : List String) : IO UInt32 := do
  let inputFile ← IO.getEnv "INPUT_DXBC"
  let inputFolder ← IO.getEnv "INPUT_FOLDER"
  let outputFolder ← IO.getEnv "OUTPUT_FOLDER"
  let environment : String → Option String := fun name =>
    match name with
    | "INPUT_DXBC" => inputFile
    | "INPUT_FOLDER" => inputFolder
    | "OUTPUT_FOLDER" => outputFolder
    | _ => none
  match Arguments.parse environment arguments with
  | .error e =>
    IO.eprintln s!"error: {e.message}"
    return 2
  | .ok invocation =>
    let settings : ProgramSettings := ⟨invocation.verbose, ← IO.monoMsNow⟩
    match ← (invocation.command.perform (m := ReaderT ProgramSettings IO)).run.run settings with
    | .ok () => return 0
    | .error failed =>
      IO.eprint failed.report
      return 1
