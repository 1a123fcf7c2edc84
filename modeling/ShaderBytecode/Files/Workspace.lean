import ShaderBytecode.Files.Tree
import ShaderBytecode.Notice

/-!
# What a command may do

A command reads and writes files, prints, and tells what it comes across. It is written once, for
any monad with these operations. `World` carries them out on a tree of files in memory.
-/

namespace ShaderBytecode

/-- The operations of a command on what is around it. -/
class Workspace (m : Type → Type) where
  /-- The content of a file. -/
  read : Path → m (Except FileFault Bytes)
  /-- Write a file, whether it is there or not. -/
  write : Path → Bytes → m (Except FileFault Unit)
  /-- Make a folder and all folders around it, as far as they are not there. -/
  createFolders : Path → m (Except FileFault Unit)
  /-- The files at or below a path, each by the names that lead to it from there. -/
  walk : Path → m (List (List String))
  /-- Print a text. -/
  print : String → m Unit
  /-- Tell something apart from the result. -/
  log : Notice.Level → String → m Unit
  /-- How long the command has been at work. -/
  elapsed : m String

/-- A tree of files, and what has been printed so far. -/
structure World where
  files : FileTree
  printed : String
  /-- How long everything takes. -/
  duration : String
deriving DecidableEq, Repr

namespace World

def changeFiles (change : FileTree → Except FileFault FileTree) :
    StateM World (Except FileFault Unit) := fun w =>
  match change w.files with
  | .ok files => (.ok (), { w with files := files })
  | .error fault => (.error fault, w)

/-- In memory, all operations are on the tree of files and the printed text. -/
instance : Workspace (StateM World) where
  read path := fun w => (w.files.read path, w)
  write path content := changeFiles (·.write path content)
  createFolders path := changeFiles (·.createFolders path)
  walk path := fun w => (w.files.walk path, w)
  print text := fun w => ((), { w with printed := w.printed ++ text })
  log _ _ := pure ()
  elapsed := fun w => (w.duration, w)

end World
end ShaderBytecode
