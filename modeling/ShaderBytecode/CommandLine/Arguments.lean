import ShaderBytecode.Bytes.Basic

/-!
# Arguments

An invocation names a command and gives its options. An option has a long name and mostly a short
one; its value is the rest of its argument or the next argument. Short options without a value can
stand together behind one dash. Two dashes alone end the options.

Some folders and files may be given by the environment instead; an option goes before it.
-/

namespace ShaderBytecode

/-! ### Invocations -/

/-- What a caller chooses about shaders: the file of block names and the version. -/
structure ShaderChoice where
  bindings : Option String
  version : Nat
deriving DecidableEq, Repr

inductive Command where
  /-- Emit the shader of the container in a file; without an output file, print it. -/
  | emit (input : String) (output : Option String) (choice : ShaderChoice)
  /-- Describe the container in a file, as JSON or as a summary. -/
  | info (input : String) (json : Bool)
  /-- Check that a container comes back byte for byte. -/
  | roundTrip (input : String)
  /-- Write all containers within the files of a folder to files of their own, and with a choice the
  shaders beside them. -/
  | extract (input output : String) (filter : Option String) (shaders : Option ShaderChoice)
deriving DecidableEq, Repr

structure Invocation where
  verbose : Bool
  command : Command
deriving DecidableEq, Repr

inductive UsageError where
  | noCommand
  | unknownCommand (name : String)
  | unexpected (argument : String)
  | missingValue (option : String)
  /-- A path is given, and it is empty. -/
  | emptyPath (option : String)
  | repeated (option : String)
  | missing (option : String)
  | invalidNumber (option value : String)
deriving DecidableEq, Repr

def UsageError.message : UsageError → String
  | noCommand => "a command is missing: glsl, info, roundtrip or extract"
  | unknownCommand name => s!"there is no command '{name}'"
  | unexpected argument => s!"unexpected argument '{argument}'"
  | missingValue option => s!"a value is missing for '--{option}'"
  | emptyPath option => s!"the path for '--{option}' is empty"
  | repeated option => s!"'--{option}' is given more than once"
  | missing option => s!"'--{option}' is missing"
  | invalidNumber option value => s!"'{value}' is no number for '--{option}'"

/-! ### Options -/

structure OptionForm where
  name : String
  short : Option Char
  takesValue : Bool
deriving DecidableEq, Repr

namespace OptionForm

/-! The options of all commands. -/

def verbose : OptionForm := ⟨"verbose", some 'v', false⟩
def input : OptionForm := ⟨"input", some 'i', true⟩
def output : OptionForm := ⟨"output", some 'o', true⟩
def bindings : OptionForm := ⟨"bindings", some 'b', true⟩
def filter : OptionForm := ⟨"filter", some 'f', true⟩
def json : OptionForm := ⟨"json", none, false⟩
def shaders : OptionForm := ⟨"glsl", none, false⟩
def version : OptionForm := ⟨"glsl-version", none, true⟩

end OptionForm

/-- An option as it is given; one that takes no value has an empty one. -/
structure GivenOption where
  name : String
  value : String
deriving DecidableEq, Repr

namespace Arguments

/-- What one argument gives. An option without its value takes it from the next argument. -/
structure Reading where
  given : List GivenOption
  pending : Option String

def looksLikeOption (argument : String) : Bool := argument.startsWith "-" && argument != "-"

/-- Read the characters behind a single dash. -/
def readShort (forms : List OptionForm) : List Char → Except UsageError Reading
  | [] => .ok ⟨[], none⟩
  | c :: rest =>
    match forms.find? (·.short == some c) with
    | none => .error (.unexpected s!"-{c}")
    | some form =>
      if !form.takesValue then
        (fun r => { r with given := ⟨form.name, ""⟩ :: r.given }) <$> readShort forms rest
      else if rest = [] then .ok ⟨[], some form.name⟩
      else
        let value := if rest.head? = some '=' then rest.tail else rest
        .ok ⟨[⟨form.name, String.ofList value⟩], none⟩

/-- Read the characters behind two dashes. -/
def readLong (forms : List OptionForm) (body : List Char) : Except UsageError Reading :=
  let name := String.ofList (body.takeWhile (· ≠ '='))
  let value := body.dropWhile (· ≠ '=')
  match forms.find? (·.name == name) with
  | none => .error (.unexpected s!"--{name}")
  | some form =>
    if form.takesValue then
      match value with
      | [] => .ok ⟨[], some name⟩
      | _ :: value => .ok ⟨[⟨name, String.ofList value⟩], none⟩
    else if value = [] then .ok ⟨[⟨name, ""⟩], none⟩
    else .error (.unexpected s!"--{String.ofList body}")

def readArgument (forms : List OptionForm) (argument : String) : Except UsageError Reading :=
  match argument.toList with
  | '-' :: '-' :: body => readLong forms body
  | '-' :: c :: rest => readShort forms (c :: rest)
  | _ => .error (.unexpected argument)

/-- The argument behind which no option stands. -/
def endOfOptions : String := "--"

/-- Read arguments that are all options, up to the end of options; nothing stands behind that. -/
def readOptions (forms : List OptionForm) : List String → Except UsageError (List GivenOption)
  | [] => .ok []
  | argument :: rest => do
    if argument = endOfOptions then
      match rest with
      | [] => return []
      | extra :: _ => throw (.unexpected extra)
    let r ← readArgument forms argument
    match r.pending, rest with
    | none, rest => return r.given ++ (← readOptions forms rest)
    | some name, [] => throw (.missingValue name)
    | some name, value :: rest =>
      if looksLikeOption value then throw (.missingValue name)
      return r.given ++ ⟨name, value⟩ :: (← readOptions forms rest)

/-- The first option that is given twice. -/
def repeated? : List GivenOption → Option String
  | [] => none
  | o :: rest => if rest.any (·.name == o.name) then some o.name else repeated? rest

/-- Read arguments that are all options, each given once at most. -/
def options (forms : List OptionForm) (arguments : List String) :
    Except UsageError (List GivenOption) := do
  let given ← readOptions forms arguments
  match repeated? given with
  | some name => throw (.repeated name)
  | none => return given

def value? (given : List GivenOption) (form : OptionForm) : Option String :=
  (given.find? (·.name == form.name)).map (·.value)

def has (given : List GivenOption) (form : OptionForm) : Bool := (value? given form).isSome

/-- A path is not empty. -/
def checkPath (form : OptionForm) (path : String) : Except UsageError String :=
  if path = "" then .error (.emptyPath form.name) else .ok path

def path? (given : List GivenOption) (form : OptionForm) : Except UsageError (Option String) :=
  (value? given form).mapM (checkPath form)

/-- The path that an option gives or the environment in its stead. -/
def required (environment : String → Option String) (name : String) (given : List GivenOption)
    (form : OptionForm) : Except UsageError String :=
  match (value? given form).or (environment name) with
  | some path => checkPath form path
  | none => .error (.missing form.name)

/-- The 32-bit number that a value writes down. A sign may stand in front of it. -/
def number (form : OptionForm) (value : String) : Except UsageError Nat :=
  let sign := value.toList.head?.filter fun c => c = '+' ∨ c = '-'
  let digits := value.toList.drop sign.toList.length
  let n := digits.foldl (fun n c => 10 * n + (c.toNat - '0'.toNat)) 0
  let limit := if sign = some '-' then 1 else wordLimit
  if digits ≠ [] ∧ digits.all Char.isDigit ∧ n < limit then .ok n
  else .error (.invalidNumber form.name value)

def standardVersion : Nat := 450

def shaderChoice (given : List GivenOption) : Except UsageError ShaderChoice := do
  let version ←
    match value? given .version with
    | some value => number .version value
    | none => pure standardVersion
  return ⟨← path? given .bindings, version⟩

/-! ### Commands -/

inductive CommandName where
  | glsl
  | info
  | roundTrip
  | extract
deriving DecidableEq, Repr

def CommandName.ofText (text : String) : Except UsageError CommandName :=
  match text with
  | "glsl" => .ok glsl
  | "info" => .ok info
  | "roundtrip" => .ok roundTrip
  | "extract" => .ok extract
  | _ => .error (.unknownCommand text)

def CommandName.forms : CommandName → List OptionForm
  | glsl => [.verbose, .input, .output, .bindings, .version]
  | info => [.verbose, .input, .json]
  | roundTrip => [.verbose, .input]
  | extract => [.verbose, .input, .output, .filter, .shaders, .bindings, .version]

def command (environment : String → Option String) (name : CommandName)
    (given : List GivenOption) : Except UsageError Command := do
  match name with
  | .glsl =>
    let input ← required environment "INPUT_DXBC" given .input
    return .emit input (← path? given .output) (← shaderChoice given)
  | .info => return .info (← required environment "INPUT_DXBC" given .input) (has given .json)
  | .roundTrip => return .roundTrip (← required environment "INPUT_DXBC" given .input)
  | .extract =>
    let input ← required environment "INPUT_FOLDER" given .input
    let output ← required environment "OUTPUT_FOLDER" given .output
    let choice ← shaderChoice given
    return .extract input output (value? given .filter)
      (if has given .shaders then some choice else none)

def parse (environment : String → Option String) (arguments : List String) :
    Except UsageError Invocation := do
  let front := arguments.takeWhile looksLikeOption
  let before ← options [.verbose] front
  match arguments.drop front.length with
  | [] => throw .noCommand
  | text :: rest =>
    if endOfOptions ∈ front then throw (.unexpected text)
    let name ← CommandName.ofText text
    let given ← options name.forms rest
    return ⟨has before .verbose || has given .verbose, ← command environment name given⟩

end Arguments
end ShaderBytecode
