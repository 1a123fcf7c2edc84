import ShaderBytecode.CommandLine.Perform

/-!
# Commands on files in memory

`World` carries out the operations of a command on a tree of files. `World.run` is the result of a
command and the world behind it, and the lemmas of this module say what each operation and each
combinator contributes: reading leaves the world as it is, a change of the files that fails does as
well, and notices are not kept.
-/

namespace ShaderBytecode
namespace World

variable {ε α β : Type}

/-- The result of an action and the world behind it. -/
def run (w : World) (action : ExceptT ε (StateM World) α) : Except ε α × World :=
  ExceptT.run action w

/-! ### Combinators

A run is a pair of a result and a world. An action that fails keeps the world it has reached, so
what it wrote before is not undone. -/

@[simp] theorem run_pure (w : World) (a : α) :
    w.run (pure a : ExceptT ε (StateM World) α) = (.ok a, w) :=
  rfl

@[simp] theorem run_bind (w : World) (action : ExceptT ε (StateM World) α)
    (next : α → ExceptT ε (StateM World) β) :
    w.run (action >>= next) =
      match w.run action with
      | (.ok a, after) => after.run (next a)
      | (.error e, after) => (.error e, after) := by
  have hbind : w.run (action >>= next) =
      match w.run action with
      | (x, after) => (ExceptT.bindCont next x : StateM World (Except ε β)) after :=
    rfl
  rw [hbind]
  rcases w.run action with ⟨_ | a, after⟩ <;> rfl

/-- An action that cannot fail. -/
@[simp] theorem run_lift (w : World) (action : StateM World α) :
    w.run (ExceptT.lift action : ExceptT ε (StateM World) α)
      = (.ok (action w).1, (action w).2) :=
  rfl

/-! ### Operations

Each operation of a command is carried out by a function on trees. Those that change the tree may
fail, and then the world is the one before. -/

/-- The files after a change, which are the files before if the change fails. -/
def changed (w : World) (change : FileTree → Except FileFault FileTree) :
    Except FileFault Unit × World :=
  match change w.files with
  | .ok files => (.ok (), { w with files := files })
  | .error fault => (.error fault, w)

@[simp] theorem run_read (w : World) (path : Path) :
    w.run (ExceptT.mk (Workspace.read path)) = (w.files.read path, w) :=
  rfl

@[simp] theorem run_write (w : World) (path : Path) (content : Bytes) :
    w.run (ExceptT.mk (Workspace.write path content)) = w.changed (·.write path content) :=
  rfl

@[simp] theorem run_createFolders (w : World) (path : Path) :
    w.run (ExceptT.mk (Workspace.createFolders path)) = w.changed (·.createFolders path) :=
  rfl

section

variable {w : World} {path : Path} {content : Bytes} {files : FileTree} {fault : FileFault}

theorem run_write_of_ok (h : w.files.write path content = .ok files) :
    w.run (ExceptT.mk (Workspace.write path content)) = (.ok (), { w with files := files }) := by
  rw [run_write, changed, h]

theorem run_write_of_error (h : w.files.write path content = .error fault) :
    w.run (ExceptT.mk (Workspace.write path content)) = (.error fault, w) := by
  rw [run_write, changed, h]

theorem run_createFolders_of_ok (h : w.files.createFolders path = .ok files) :
    w.run (ExceptT.mk (Workspace.createFolders path)) = (.ok (), { w with files := files }) := by
  rw [run_createFolders, changed, h]

theorem run_createFolders_of_error (h : w.files.createFolders path = .error fault) :
    w.run (ExceptT.mk (Workspace.createFolders path)) = (.error fault, w) := by
  rw [run_createFolders, changed, h]

end

end World

/-! ### Parts of commands

What commands are made of, besides operations: results that are there already, text that is printed,
files that are read with a failure of the command in place of the fault, and notices. -/

namespace Command

variable {α : Type}

@[simp] theorem run_settle (w : World) (result : Except Failure α) :
    w.run (settle result) = (result, w) :=
  rfl

@[simp] theorem run_say (w : World) (text : String) :
    w.run (say text) = (.ok (), { w with printed := w.printed ++ text }) :=
  rfl

@[simp] theorem run_readInput (w : World) (input : String) :
    w.run (readInput input) = ((w.files.read (Path.ofText input)).mapError .readInput, w) :=
  rfl

@[simp] theorem run_attempt_read (w : World) (failure : FileFault → Failure) (path : Path) :
    w.run (attempt failure (Workspace.read path)) = ((w.files.read path).mapError failure, w) :=
  rfl

@[simp] theorem run_attempt_createFolders (w : World) (failure : FileFault → Failure)
    (path : Path) :
    w.run (attempt failure (Workspace.createFolders path))
      = ((w.changed (·.createFolders path)).1.mapError failure,
          (w.changed (·.createFolders path)).2) :=
  rfl

/-- Notices leave no trace. -/
@[simp] theorem run_tell (w : World) (notices : List Notice) :
    w.run (tell notices) = (.ok (), w) := by
  have hsilent : (notices.forM fun n => Workspace.log n.level n.message : StateM World Unit)
      = pure () := by
    -- a notice is logged, and the log of a world in memory is not kept
    induction notices with
    | nil => rfl
    | cons n notices ih =>
      rw [List.forM_eq_forM] at ih ⊢
      rw [List.forM_cons, ih]
      rfl
  rw [tell, hsilent]
  rfl

end Command
end ShaderBytecode
