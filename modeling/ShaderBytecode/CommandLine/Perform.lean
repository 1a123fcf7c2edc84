import ShaderBytecode.CommandLine.Arguments
import ShaderBytecode.CommandLine.Extraction
import ShaderBytecode.CommandLine.Failure
import ShaderBytecode.Description.Container
import ShaderBytecode.Description.Summary
import ShaderBytecode.Text.Line

/-!
# Commands

`Command.perform` carries out a command. What it needs besides containers is read first: the file of
block names before the container, and the file name pattern before any file is looked for.
-/

namespace ShaderBytecode

/-- The bindings that a text of names makes, one name a line. -/
def BlockBindings.ofText (text : String) : BlockBindings := ⟨Line.trimmed text⟩

namespace Command

variable {m : Type → Type} [Monad m] [Workspace m]

/-! ### Parts of commands -/

/-- An action that fails for the reason a file operation fails. -/
def attempt (failure : FileFault → Failure) (action : m (Except FileFault α)) :
    ExceptT Failure m α :=
  ExceptT.mk (Except.mapError failure <$> action)

def settle (result : Except Failure α) : ExceptT Failure m α := ExceptT.mk (pure result)

def say (text : String) : ExceptT Failure m Unit := ExceptT.lift (Workspace.print text)

def tell (notices : List Notice) : ExceptT Failure m Unit :=
  ExceptT.lift (notices.forM fun n => Workspace.log n.level n.message)

def shaderOptions (choice : ShaderChoice) : ExceptT Failure m Glsl.Options := do
  match choice.bindings with
  | none => return { Glsl.Options.standard with version := choice.version }
  | some path =>
    let bytes ← attempt (fun fault => .readBindings path (.file fault))
      (Workspace.read (Path.ofText path))
    match Utf8.decode bytes with
    | .ok text => return ⟨.ofText text, choice.version⟩
    | .error _ => settle (.error (.readBindings path .encoding))

def readInput (input : String) : ExceptT Failure m Bytes :=
  attempt .readInput (Workspace.read (Path.ofText input))

def readContainer (input : String) : ExceptT Failure m Container := do
  let data ← readInput input
  tell (Container.decodeNotices data)
  settle ((Container.decode data).mapError .decodeInput)

/-! ### Shaders -/

def emitShader (input : String) (output : Option String) (choice : ShaderChoice) :
    ExceptT Failure m Unit := do
  let options ← shaderOptions choice
  let c ← readContainer input
  tell (Glsl.emitNotices c)
  let glsl ← settle ((Glsl.emit? options c).mapError .emission)
  match output with
  | none => say glsl
  | some path =>
    attempt .writeOutput (Workspace.write (Path.ofText path) (Utf8.encode glsl))
    say s!"Transpiled: {input} -> {path}\n"

/-! ### Inspection -/

def describeFile (input : String) (json : Bool) : ExceptT Failure m Unit := do
  let c ← readContainer input
  say (if json then c.toJson.pretty ++ "\n" else c.summary)

def checkRoundTrip (input : String) : ExceptT Failure m Unit := do
  let data ← readInput input
  tell (Container.decodeNotices data)
  settle ((Container.roundTrip data).mapError Failure.ofRoundTrip)
  say s!"Round-trip OK: {input} ({data.size} bytes)\n"

/-! ### Extraction -/

/-- A file is among those that are asked for. In the text that a pattern is tried on, a backslash
counts as a separator. -/
def isSelected (filter : Option Glob) (names : List String) : Bool :=
  match filter with
  | none => true
  | some g => g.accepts ((Path.text names).map fun c => if c = '\\' then '/' else c)

def extractFolder (input output : String) (filter : Option String)
    (choice : Option ShaderChoice) : ExceptT Failure m Unit := do
  let options ← choice.mapM shaderOptions
  let pattern ← settle ((filter.mapM Glob.parse).mapError .filter)
  let found ← ExceptT.lift (Workspace.walk (Path.ofText input))
  let files := found.filter (isSelected pattern)
  say s!"Scanning {files.length} files for shaders...\n"
  attempt .createOutput (Workspace.createFolders (Path.ofText output))
  let x : Extraction := ⟨Path.ofText input, Path.ofText output, options⟩
  let tally ← ExceptT.lift (x.extractFiles files)
  let elapsed ← ExceptT.lift Workspace.elapsed
  say <| s!"Extracted {tally.containers} shaders in {elapsed} "
    ++ s!"({tally.failed} failed to transpile, {tally.unreadable} unreadable files)\n"

/-! ### All commands -/

def perform : Command → ExceptT Failure m Unit
  | emit input output choice => emitShader input output choice
  | info input json => describeFile input json
  | roundTrip input => checkRoundTrip input
  | extract input output filter shaders => extractFolder input output filter shaders

end Command
end ShaderBytecode
