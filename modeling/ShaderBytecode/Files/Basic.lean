/-!
# Files, paths and what can go wrong with them

A path is a list of steps. Besides the name of an entry, a step may be empty or `.`, which stays
where it is, or `..`, which goes up to the folder around. A separator at the end of a path leaves an
empty last step.
-/

namespace ShaderBytecode

inductive FileFault where
  | notFound
  | alreadyExists
  | notAFolder
  | isAFolder
  /-- A path, or the name that a step of it gives, is too long. -/
  | nameTooLong
  | other (code : Nat) (text : String)
deriving DecidableEq, Repr

/-- The wording of a fault, with the number that the operating system gives it. -/
def FileFault.message : FileFault → String
  | notFound => "No such file or directory (os error 2)"
  | alreadyExists => "File exists (os error 17)"
  | notAFolder => "Not a directory (os error 20)"
  | isAFolder => "Is a directory (os error 21)"
  | nameTooLong => "File name too long (os error 36)"
  | other code text => s!"{text} (os error {code})"

abbrev Path := List String

namespace Path

def ofText (text : String) : Path := text.splitOn "/"

def text (path : Path) : String := "/".intercalate path

def maxNameBytes : Nat := 255

def maxBytes : Nat := 4095

def isLongStep (step : String) : Bool := maxNameBytes < step.utf8ByteSize

def isLong (path : Path) : Bool := maxBytes < path.text.utf8ByteSize

/-- The step does not lead anywhere. -/
def staysAt (step : String) : Bool := step == "" || step == "."

/-- A step that an entry can have as its name. -/
def IsName (step : String) : Prop := staysAt step = false ∧ step ≠ ".."

instance (step : String) : Decidable (IsName step) := inferInstanceAs (Decidable (_ ∧ _))

/-- The path without the separator at its end. -/
def unclosed (path : Path) : Path := if path.getLast? = some "" then path.dropLast else path

/-- The path of an entry below a folder. -/
def below (folder : Path) : List String → Path
  | [] => folder
  | names => folder.unclosed ++ names

/-- Names with something added to the last of them. -/
def withSuffix (names : List String) (suffix : String) : List String :=
  names.dropLast ++ [names.getLastD "" ++ suffix]

end Path
end ShaderBytecode
