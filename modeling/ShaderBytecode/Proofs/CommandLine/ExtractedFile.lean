import ShaderBytecode.Proofs.CommandLine.InMemory
import ShaderBytecode.Proofs.CommandLine.OutputNames
import ShaderBytecode.Proofs.Files.Overlay

/-!
# What the extraction of a file leaves

A file that is extracted adds files and folders below the output folder. `Extraction.Adds` says
which, and `Extraction.tallyOf` how the file counts, both by looking at the tree before: what the
input file holds, and what is in the way of its outputs.

    exists_run_extractFile : the tree after is the tree before with what is added over it

A file whose outputs cannot all be written counts as unreadable, and the outputs in front of the
first one that cannot be are written.

Failures are part of the description, not an exception to it: an output that cannot be written ends
its file but not the command, so the tree after a file is given in every case.
-/

namespace ShaderBytecode
namespace Extraction

variable (x : Extraction) (t : FileTree) (target : Place) (names : List String)

/-- The containers in the file that `names` lead to from the input folder. -/
def containersIn : List Bytes :=
  match t.read (x.input.below names) with
  | .ok data => Container.embedded data
  | .error _ => []

/-- The outputs of a file. -/
def outputsFor : List Output := x.outputs (x.containersIn t names)

/-- The folder for the outputs of a file can be made. -/
def hasWay : Bool := t.hasWay x.output target names.dropLast

/-- An output of a file can be written once the folder for it is there. -/
def canWrite (o : Output) : Bool := t.canWrite x.output target (Path.withSuffix names o.suffix)

/-- What the extraction of a file adds to a tree: the folders on the way to its outputs, and all
outputs up to the first one that cannot be written. -/
inductive Adds : Place → Entry → Prop
  | folder {p : List String} (hsome : x.containersIn t names ≠ []) (hway : x.hasWay t target names)
    (hp : p <+: names.dropLast) : Adds (target ++ p) .folder
  | file {o : Output} (hway : x.hasWay t target names)
    (ho : o ∈ (x.outputsFor t names).takeWhile (x.canWrite t target names)) :
    Adds (target ++ Path.withSuffix names o.suffix) (.file o.content)

/-- How a file counts. -/
def tallyOf : Tally :=
  match t.read (x.input.below names) with
  | .error _ => .unreadableFile
  | .ok _ =>
    let blobs := x.containersIn t names
    if blobs = [] then .none
    else if x.hasWay t target names && (x.outputsFor t names).all (x.canWrite t target names) then
      ⟨blobs.length, blobs.countP (hasNoShader x.options), 0⟩
    else .unreadableFile

/-- The input and the output folder are at two places of a tree. -/
structure Located (source : Place) : Prop where
  input : t.locate x.input = .ok source
  output : t.locate x.output = .ok target
  isFolder : t.get? target = some .folder

end Extraction

/-- How the result of the extraction of a file counts. -/
def Tally.ofResult : Except FileFault Tally → Tally
  | .ok tally => tally
  | .error _ => unreadableFile

namespace Extraction

variable {x : Extraction} {t t' : FileTree} {source target : Place} {names : List String}

theorem Located.of_keeps (h : x.Located t target source) (hkeeps : t.Keeps t') :
    x.Located t' target source :=
  ⟨hkeeps.locate h.input, hkeeps.locate h.output, hkeeps _ h.isFolder⟩

/-! ### Outputs

An output goes into the folder of its file, under a name of its own. So writing one changes neither
whether the others can be written nor whether the folder is there, and the outputs of a file may be
described by the tree before any of them. -/

theorem isFolder_of_canWrite {o : Output} (h : x.canWrite t target names o) :
    t.isFolder (target ++ Path.withSuffix names o.suffix) = false :=
  (FileTree.canWrite_iff.1 h).2.2

/-- Writing an output is in the way of no other. -/
theorem canWrite_set {o : Output} (h : x.canWrite t target names o) (content : Bytes) :
    x.canWrite (t.set (target ++ Path.withSuffix names o.suffix) (.file content)) target names
      = x.canWrite t target names := by
  funext o'
  simp only [canWrite, FileTree.canWrite, FileTree.isFolder_set_file (isFolder_of_canWrite h)]

/-- An output is written below the folder for it exactly if it can be. -/
theorem write_output (hlocated : x.Located t target source) (hnames : ∀ n ∈ names, Path.IsName n)
    (hshort : ∀ n ∈ names.dropLast, Path.isLongStep n = false)
    (haround : ∀ p, p <+: names.dropLast → t.get? (target ++ p) = some .folder)
    {o : Output} (hsuffix : 2 < o.suffix.length) :
    if x.canWrite t target names o then
      t.write (x.output.below (Path.withSuffix names o.suffix)) o.content
        = .ok (t.set (target ++ Path.withSuffix names o.suffix) (.file o.content))
    else ∃ fault, t.write (x.output.below (Path.withSuffix names o.suffix)) o.content
      = .error fault := by
  refine FileTree.write_below hlocated.output (Path.isName_withSuffix hnames hsuffix)
    Path.withSuffix_ne_nil ?_ ?_ o.content
  · rwa [Path.dropLast_withSuffix]
  · rwa [Path.dropLast_withSuffix]

theorem run_writeAll_of_ok {w : World} {o : Output} {os : List Output} {files : FileTree}
    (h : w.files.write (x.output.below (Path.withSuffix names o.suffix)) o.content = .ok files) :
    w.run (x.writeAll names (o :: os)) = { w with files := files }.run (x.writeAll names os) := by
  simp only [writeAll, List.forM_eq_forM, List.forM_cons, World.run_bind,
    World.run_write_of_ok h]

theorem run_writeAll_of_error {w : World} {o : Output} {os : List Output} {fault : FileFault}
    (h : w.files.write (x.output.below (Path.withSuffix names o.suffix)) o.content
      = .error fault) : w.run (x.writeAll names (o :: os)) = (.error fault, w) := by
  simp only [writeAll, List.forM_eq_forM, List.forM_cons, World.run_bind,
    World.run_write_of_error h]

/-- What is written for a file, the folder for it being there. -/
theorem exists_run_writeAll {w : World} (hlocated : x.Located w.files target source)
    (hnames : ∀ n ∈ names, Path.IsName n)
    (hshort : ∀ n ∈ names.dropLast, Path.isLongStep n = false)
    (haround : ∀ p, p <+: names.dropLast → w.files.get? (target ++ p) = some .folder)
    {os : List Output} (hsuffix : ∀ o ∈ os, 2 < o.suffix.length)
    (hinj : ∀ o ∈ os, ∀ o' ∈ os, o.suffix = o'.suffix → o = o') :
    ∃ result t', w.run (x.writeAll names os) = (result, { w with files := t' }) ∧
      (result.isOk = os.all (x.canWrite w.files target names)) ∧
      w.files.Overlaid (fun q e => ∃ o ∈ os.takeWhile (x.canWrite w.files target names),
        q = target ++ Path.withSuffix names o.suffix ∧ e = .file o.content) t' := by
  induction os generalizing w with
  | nil =>
    refine ⟨.ok (), w.files, rfl, rfl, (FileTree.Overlaid.refl _).mono nofun ?_⟩
    rintro q e ⟨o, ho, -⟩
    cases ho
  | cons o os ih =>
    -- whether the first output can be written decides how the rest is run
    have hwrite := write_output hlocated hnames hshort haround (hsuffix o List.mem_cons_self)
    rw [List.all_cons, List.takeWhile_cons]
    cases hcan : x.canWrite w.files target names o with
    | false =>
      rw [hcan, if_neg Bool.false_ne_true] at hwrite
      obtain ⟨fault, hfault⟩ := hwrite
      refine ⟨.error fault, w.files, run_writeAll_of_error hfault, rfl,
        (FileTree.Overlaid.refl _).mono nofun ?_⟩
      rintro q e ⟨o', ho', -⟩
      rw [if_neg Bool.false_ne_true] at ho'
      cases ho'
    | true =>
      rw [hcan, if_pos rfl] at hwrite
      have hplace : target ++ Path.withSuffix names o.suffix ≠ [] :=
        List.append_ne_nil_of_right_ne_nil target Path.withSuffix_ne_nil
      have hplaceNames : ∀ n ∈ target ++ Path.withSuffix names o.suffix, Path.IsName n :=
        List.forall_mem_append.2 ⟨FileTree.isName_of_get? hlocated.isFolder,
          Path.isName_withSuffix hnames (hsuffix o List.mem_cons_self)⟩
      have hset := FileTree.Overlaid.set (t := w.files) (e := .file o.content) hplace hplaceNames
      have hsame := canWrite_set hcan o.content
      have hfree := isFolder_of_canWrite hcan
      generalize w.files.set (target ++ Path.withSuffix names o.suffix) (.file o.content) = t₁
        at hwrite hset hsame
      -- files are replaced by files only, so the folders around stay
      have hkeeps : w.files.Keeps t₁ := hset.keeps <| by
        rintro q e ⟨rfl, rfl⟩
        exact .inr fun h => by rw [FileTree.isFolder_iff.2 h] at hfree; cases hfree
      obtain ⟨result, t', hrun, hok, hover⟩ := @ih { w with files := t₁ }
        (hlocated.of_keeps hkeeps) (fun p hp => hkeeps _ (haround p hp))
        (fun o' ho' => hsuffix o' (List.mem_cons_of_mem _ ho'))
        (fun o' ho' o'' ho'' =>
          hinj o' (List.mem_cons_of_mem _ ho') o'' (List.mem_cons_of_mem _ ho''))
      dsimp only at hok hover
      rw [hsame] at hok hover
      refine ⟨result, t', (run_writeAll_of_ok hwrite).trans hrun, hok, ?_⟩
      rw [if_pos rfl]
      refine (hset.trans hover ?_).mono ?_ ?_
      · -- a later output of the same name would be the same output
        rintro q _ _ ⟨rfl, rfl⟩ ⟨o', ho', hq, rfl⟩
        have hmem := List.mem_cons_of_mem o ((List.takeWhile_prefix _).subset ho')
        rw [hinj o List.mem_cons_self o' hmem
          (Path.withSuffix_injective (List.append_cancel_left hq))]
      · rintro q e (⟨rfl, rfl⟩ | ⟨o', ho', rfl, rfl⟩)
        · exact ⟨o, List.mem_cons_self, rfl, rfl⟩
        · exact ⟨o', List.mem_cons_of_mem _ ho', rfl, rfl⟩
      · rintro q e ⟨o', ho', rfl, rfl⟩
        rcases List.mem_cons.1 ho' with rfl | ho'
        · exact .inl (.inl ⟨rfl, rfl⟩)
        · exact .inl (.inr ⟨o', ho', rfl, rfl⟩)

/-! ### Files

A file is read, the containers in it are collected, and only if there are some is a folder made. The
folder may have something in its way; then nothing of the file is written. -/

/-- No name on the way to a file that can be read is too long. -/
theorem isLongStep_of_read (hlocated : x.Located t target source)
    (hnames : ∀ n ∈ names, Path.IsName n) {data : Bytes}
    (hread : t.read (x.input.below names) = .ok data) :
    ∀ n ∈ names, Path.isLongStep n = false := by
  by_cases hne : names = []
  · subst hne
    nofun
  · -- a file that is read has been walked to, and the walk stops at a name that is too long
    cases hlocate : t.locate (x.input.below names) with
    | error fault =>
      rw [FileTree.read, hlocate] at hread
      cases hread
    | ok place =>
      have hfollow := (FileTree.follow_of_locate hlocate).1
      rw [FileTree.follow_below hlocated.input hne] at hfollow
      exact (FileTree.eq_append_of_follow_names hnames hfollow).2

theorem not_adds_of_containersIn_eq_nil (h : x.containersIn t names = []) (q : Place) (e : Entry) :
    ¬ x.Adds t target names q e := by
  rintro (⟨hsome, -, -⟩ | ⟨-, ho⟩)
  · exact hsome h
  · rw [outputsFor, h] at ho
    cases ho

section

variable {w : World}

theorem run_extractFile_of_unreadable {fault : FileFault}
    (hread : w.files.read (x.input.below names) = .error fault) :
    w.run (x.extractFile names) = (.error fault, w) := by
  simp only [extractFile, World.run_bind, World.run_read, hread]

theorem run_extractFile_of_ok {data : Bytes}
    (hread : w.files.read (x.input.below names) = .ok data) :
    w.run (x.extractFile names) =
      let blobs := x.containersIn w.files names
      if blobs = [] then (.ok .none, w)
      else
        w.run do
          ExceptT.mk (Workspace.createFolders (x.output.below names.dropLast))
          x.writeAll names (x.outputsFor w.files names)
          return ⟨blobs.length, blobs.countP (hasNoShader x.options), 0⟩ := by
  have hblobs : x.containersIn w.files names = Container.embedded data := by
    rw [containersIn, hread]
  simp only [extractFile, World.run_bind, World.run_read, hread, outputsFor, hblobs, outputs,
    List.isEmpty_iff]
  split <;> simp only [World.run_pure, World.run_bind]

/-- The outputs of a file are not in the way of the folders around them. -/
theorem canWrite_of_overlaid (hover : t.Overlaid
      (fun q e => ∃ p, p <+: names.dropLast ∧ q = target ++ p ∧ e = .folder) t') :
    x.canWrite t' target names = x.canWrite t target names := by
  funext o
  have hget : t'.get? (target ++ Path.withSuffix names o.suffix)
      = t.get? (target ++ Path.withSuffix names o.suffix) := by
    refine hover.kept ?_
    -- no folder around an output is the output
    rintro e ⟨p, hp, heq, -⟩
    exact Path.ne_withSuffix_of_isPrefix hp (List.append_cancel_left heq).symm
  simp only [canWrite, FileTree.canWrite, FileTree.isFolder, hget]

/-- A folder is made for the outputs of a file, and they are written. -/
theorem exists_run_outputs (hlocated : x.Located w.files target source)
    (hnames : ∀ n ∈ names, Path.IsName n) (hshort : ∀ n ∈ names, Path.isLongStep n = false)
    (hsome : x.containersIn w.files names ≠ []) (tally : Tally) :
    ∃ result t',
      w.run (do
        ExceptT.mk (Workspace.createFolders (x.output.below names.dropLast))
        x.writeAll names (x.outputsFor w.files names)
        return tally) = (result, { w with files := t' }) ∧
      Tally.ofResult result = (if x.hasWay w.files target names &&
        (x.outputsFor w.files names).all (x.canWrite w.files target names) then tally
        else .unreadableFile) ∧
      w.files.Overlaid (x.Adds w.files target names) t' := by
  have haround : ∀ n ∈ names.dropLast, Path.IsName n := fun n hn =>
    hnames n (List.mem_of_mem_dropLast hn)
  have hshortAround : ∀ n ∈ names.dropLast, Path.isLongStep n = false := fun n hn =>
    hshort n (List.mem_of_mem_dropLast hn)
  simp only [World.run_bind]
  cases hway : x.hasWay w.files target names with
  | false =>
    obtain ⟨fault, hfault⟩ := FileTree.createFolders_of_not_hasWay hlocated.output
      hlocated.isFolder haround hshortAround hway
    rw [World.run_createFolders_of_error hfault]
    refine ⟨.error fault, w.files, rfl, rfl, (FileTree.Overlaid.refl _).mono nofun ?_⟩
    rintro q e (⟨-, hadds, -⟩ | ⟨hadds, -⟩) <;> exact absurd (hway.symm.trans hadds) (by decide)
  | true =>
    obtain ⟨t₁, hcreate, hover₁⟩ := FileTree.createFolders_of_hasWay hlocated.output
      hlocated.isFolder haround hshortAround hway
    rw [World.run_createFolders_of_ok hcreate]
    have hkeeps : w.files.Keeps t₁ := hover₁.keeps fun q e h => .inl (by
      obtain ⟨p, -, -, he⟩ := h
      exact he)
    obtain ⟨result, t', hrun, hok, hover⟩ :=
      exists_run_writeAll (w := { w with files := t₁ }) (hlocated.of_keeps hkeeps) hnames
        hshortAround (fun p hp => hover₁.added ⟨p, hp, rfl, rfl⟩)
        (fun o (ho : o ∈ x.outputsFor w.files names) => two_lt_length_suffix ho)
        (fun o ho o' ho' => outputs_suffix_inj ho ho')
    rw [canWrite_of_overlaid hover₁] at hok hover
    -- the folders are made first, and the outputs are at other places
    have hadds : w.files.Overlaid (x.Adds w.files target names) t' := by
      refine (hover₁.trans hover ?_).mono ?_ ?_
      · rintro q _ _ ⟨p, hp, rfl, -⟩ ⟨o, -, heq, -⟩
        exact absurd (List.append_cancel_left heq) (Path.ne_withSuffix_of_isPrefix hp)
      · rintro q e (⟨p, hp, rfl, rfl⟩ | ⟨o, ho, rfl, rfl⟩)
        · exact .folder hsome hway hp
        · exact .file hway ho
      · rintro _ _ (⟨-, -, hp⟩ | ⟨-, ho⟩)
        · exact .inl (.inl ⟨_, hp, rfl, rfl⟩)
        · exact .inl (.inr ⟨_, ho, rfl, rfl⟩)
    dsimp only
    rw [hrun, Bool.true_and, ← hok]
    cases result with
    | ok _ => exact ⟨.ok tally, t', rfl, rfl, hadds⟩
    | error fault => exact ⟨.error fault, t', rfl, rfl, hadds⟩

/-- **What the extraction of a file leaves.** The tree after is the tree before with what the file
adds to it, and the file counts as it does by the tree before. -/
theorem exists_run_extractFile (hlocated : x.Located w.files target source)
    (hnames : ∀ n ∈ names, Path.IsName n) :
    ∃ result t', w.run (x.extractFile names) = (result, { w with files := t' }) ∧
      Tally.ofResult result = x.tallyOf w.files target names ∧
      w.files.Overlaid (x.Adds w.files target names) t' := by
  -- without containers nothing is added
  have hnothing (h : x.containersIn w.files names = []) :
      w.files.Overlaid (x.Adds w.files target names) w.files :=
    (FileTree.Overlaid.refl _).mono nofun fun q e hadds =>
      absurd hadds (not_adds_of_containersIn_eq_nil h q e)
  unfold tallyOf
  cases hread : w.files.read (x.input.below names) with
  | error fault =>
    exact ⟨.error fault, w.files, run_extractFile_of_unreadable hread, rfl,
      hnothing (by rw [containersIn, hread])⟩
  | ok data =>
    rw [run_extractFile_of_ok hread]
    dsimp only
    split
    · next hnone => exact ⟨.ok .none, w.files, rfl, rfl, hnothing hnone⟩
    · next hsome =>
      exact exists_run_outputs hlocated hnames (isLongStep_of_read hlocated hnames hread) hsome _

end

end Extraction
end ShaderBytecode
