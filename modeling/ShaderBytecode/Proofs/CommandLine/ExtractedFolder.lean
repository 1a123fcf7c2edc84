import ShaderBytecode.Proofs.CommandLine.ExtractionOrder
import ShaderBytecode.Proofs.Container.Embedding

/-!
# Extracting a folder in any order

The command walks the input folder and extracts what it finds, in the order in which it is found.
`Command.extractReordered` is the command with the files in another order.

    extract_any_order : both print the same, and leave the same tree, in which every container that
                        nothing was in the way of is in the file that is named after it
    order_decides     : they leave different trees if an output of a file has the name of a folder
                        that another one needs

Of the two folders no more is asked than that neither is inside the other (`Extracting.apart`). That
the walk finds no file twice and finds files by their names is so for every tree.
-/

namespace ShaderBytecode

namespace FileTree

/-- What leads to an entry below a place leads to it behind the place. -/
theorem eq_append_of_walked {place p : Place} {names : List String} {e : Entry}
    (h : (match e with
      | .file _ => if place.isPrefixOf p then some (p.drop place.length) else none
      | .folder => none) = some names) : p = place ++ names := by
  split at h
  · split at h
    · next hbelow =>
      cases h
      exact (List.prefix_iff_eq_append.1 (List.isPrefixOf_iff_prefix.1 hbelow)).symm
    · cases h
  · cases h

theorem nodup_walk (t : FileTree) (path : Path) : (t.walk path).Nodup := by
  unfold walk
  split
  · exact List.nodup_nil
  · next place _ =>
    refine List.pairwise_filterMap.2 ((List.pairwise_map.1 t.nodup).imp ?_)
    rintro ⟨p, e⟩ ⟨p', e'⟩ hne names hnames names' hnames' rfl
    exact hne ((eq_append_of_walked hnames).trans (eq_append_of_walked hnames').symm)

/-- The walk leads to the files by their names. -/
theorem isName_of_mem_walk {t : FileTree} {path : Path} {names : List String}
    (hmem : names ∈ t.walk path) : ∀ n ∈ names, Path.IsName n := by
  unfold walk at hmem
  split at hmem
  · cases hmem
  · next place _ =>
    obtain ⟨⟨p, e⟩, hentry, hwalked⟩ := List.mem_filterMap.1 hmem
    intro n hn
    refine t.isName p (List.mem_map_of_mem hentry) n ?_
    rw [eq_append_of_walked hwalked]
    exact List.mem_append_right _ hn

end FileTree

namespace Command

/-- Extract the containers of all files of a folder, taking the files in another order. -/
def extractReordered {m : Type → Type} [Monad m] [Workspace m]
    (reorder : List (List String) → List (List String)) (input output : String)
    (filter : Option String) (choice : Option ShaderChoice) : ExceptT Failure m Unit := do
  let options ← choice.mapM shaderOptions
  let pattern ← settle ((filter.mapM Glob.parse).mapError .filter)
  let found ← ExceptT.lift (Workspace.walk (Path.ofText input))
  let files := reorder (found.filter (isSelected pattern))
  say s!"Scanning {files.length} files for shaders...\n"
  attempt .createOutput (Workspace.createFolders (Path.ofText output))
  let x : Extraction := ⟨Path.ofText input, Path.ofText output, options⟩
  let tally ← ExceptT.lift (x.extractFiles files)
  let elapsed ← ExceptT.lift Workspace.elapsed
  say <| s!"Extracted {tally.containers} shaders in {elapsed} "
    ++ s!"({tally.failed} failed to transpile, {tally.unreadable} unreadable files)\n"

theorem perform_extract {m : Type → Type} [Monad m] [Workspace m] (input output : String)
    (filter : Option String) (choice : Option ShaderChoice) :
    perform (m := m) (.extract input output filter choice)
      = extractReordered id input output filter choice :=
  rfl

/-- A command that gets as far as to its files: what it has read by then, and the places of the
input and the output folder, neither of which is inside the other. -/
structure Extracting (w : World) (input output : String) (filter : Option String)
    (choice : Option ShaderChoice) where
  options : Option Glsl.Options
  pattern : Option Glob
  /-- The tree with the output folder. -/
  base : FileTree
  source : Place
  target : Place
  options_eq : w.run (choice.mapM shaderOptions) = (.ok options, w)
  pattern_eq : filter.mapM Glob.parse = .ok pattern
  created : w.files.createFolders (Path.ofText output) = .ok base
  source_eq : w.files.locate (Path.ofText input) = .ok source
  target_eq : base.locate (Path.ofText output) = .ok target
  isFolder : base.get? target = some .folder
  apart : source.Apart target

namespace Extracting

variable {w : World} {input output : String} {filter : Option String}
  {choice : Option ShaderChoice} (s : Extracting w input output filter choice)

/-- The extraction that is carried out. -/
def extraction : Extraction := ⟨Path.ofText input, Path.ofText output, s.options⟩

/-- The files that are extracted. -/
def files : List (List String) :=
  (w.files.walk (Path.ofText input)).filter (isSelected s.pattern)

/-- The input folder stays where it is when the output folder is made. -/
theorem located : s.extraction.Located s.base s.target s.source where
  input := by
    have hkeeps : w.files.Keeps s.base := fun _ h => FileTree.get?_of_createFolders s.created h
    exact hkeeps.locate s.source_eq
  output := s.target_eq
  isFolder := s.isFolder

/-- The world when the first file is extracted. -/
def begun (files : List (List String)) : World :=
  { w with
    files := s.base
    printed := w.printed ++ s!"Scanning {files.length} files for shaders...\n" }

/-- The world when the result has been printed. -/
def ended (after : World) (tally : Tally) : World :=
  { after with
    printed := after.printed ++ (s!"Extracted {tally.containers} shaders in {after.duration} "
      ++ s!"({tally.failed} failed to transpile, {tally.unreadable} unreadable files)\n") }

/-- In front of the files stand the options, the pattern, the walk and the folder; behind them the
report. -/
theorem run_extractReordered (reorder : List (List String) → List (List String)) :
    w.run (extractReordered reorder input output filter choice) =
      match s.extraction.runFiles (reorder s.files) (s.begun (reorder s.files)) with
      | (tally, after) => (.ok (), ended after tally) := by
  have hwalk : w.run (ExceptT.lift (Workspace.walk (Path.ofText input)) : ExceptT Failure _ _)
      = (.ok (w.files.walk (Path.ofText input)), w) :=
    rfl
  simp only [extractReordered, World.run_bind, s.options_eq, run_settle, s.pattern_eq,
    Except.mapError, hwalk, run_say, run_attempt_createFolders, World.changed, s.created,
    World.run_lift]
  rfl

end Extracting

/-! ### The folders `in` and `out`

The worlds below have their input in the folder `in` and their output in `out`. Their files hold one
container each, so that each has one output. -/

theorem path_in : Path.ofText "in" = ["in"] := Path.ofText_of_notMem (by decide)

theorem path_out : Path.ofText "out" = ["out"] := Path.ofText_of_notMem (by decide)

/-- A file that is a container holds this container only. -/
theorem find_emptyContainer : Container.find Container.emptyContainer = [(0, 32)] := by
  have hnone : Container.Untagged #[] := Container.untagged_iff.2 (by decide)
  have hpieces : ∀ piece ∈ [(Container.emptyContainer, #[])],
      Container.IsBlob piece.1 ∧ Container.Untagged piece.2 := by
    rw [List.forall_mem_singleton]
    exact ⟨⟨by decide, by decide⟩, hnone⟩
  have hassemble : Container.assemble #[] [(Container.emptyContainer, #[])]
      = Container.emptyContainer :=
    rfl
  obtain ⟨hfind, -⟩ := Container.find_assemble hnone hpieces
  rw [hassemble] at hfind
  exact hfind

namespace Extracting

variable {w : World}

/-- All files of the folder `in` are extracted to the folder `out`. -/
def ofFolders {base : FileTree} (hcreated : w.files.createFolders ["out"] = .ok base)
    (hsource : w.files.locate ["in"] = .ok ["in"]) (htarget : base.locate ["out"] = .ok ["out"])
    (hfolder : base.get? ["out"] = some .folder) : Extracting w "in" "out" none none where
  options := none
  pattern := none
  base := base
  source := ["in"]
  target := ["out"]
  options_eq := rfl
  pattern_eq := rfl
  created := by rw [path_out, hcreated]
  source_eq := by rw [path_in, hsource]
  target_eq := by rw [path_out, htarget]
  isFolder := hfolder
  apart := by decide

variable (s : Extracting w "in" "out" none none)

theorem extraction_eq : s.extraction = ⟨["in"], ["out"], none⟩ := by
  have hrun : ((.ok none, w) : Except Failure _ × World) = (.ok s.options, w) := s.options_eq
  have hoptions : s.options = none := (Except.ok.inj (Prod.mk.inj hrun).1).symm
  rw [extraction, path_in, path_out, hoptions]

theorem files_eq : s.files = w.files.walk ["in"] := by
  -- the command is run with no filter, so the pattern that was read is none
  have hparse : (.ok none : Except Glob.PatternError _) = .ok s.pattern := s.pattern_eq
  have hpattern : s.pattern = none := (Except.ok.inj hparse).symm
  rw [files, path_in, hpattern, List.filter_eq_self]
  exact fun _ _ => rfl

section

variable {s} {f : List String}
  (hread : s.base.read (Path.below ["in"] f) = .ok Container.emptyContainer)

include hread

theorem containersIn_eq : s.extraction.containersIn s.base f = [Container.emptyContainer] := by
  rw [extraction_eq, Extraction.containersIn, hread]
  change Container.embedded Container.emptyContainer = _
  rw [Container.embedded, find_emptyContainer]
  rfl

theorem outputsFor_eq :
    s.extraction.outputsFor s.base f = [⟨".0.dxbc", Container.emptyContainer⟩] := by
  rw [Extraction.outputsFor, containersIn_eq hread, extraction_eq]
  rfl

theorem mem_outputsFor :
    ⟨".0.dxbc", Container.emptyContainer⟩ ∈ s.extraction.outputsFor s.base f := by
  rw [outputsFor_eq hread]
  exact List.mem_singleton_self _

/-- Nothing is in the way of the one output of a file. -/
theorem unobstructed_iff :
    s.extraction.Unobstructed s.base s.target f ⟨".0.dxbc", Container.emptyContainer⟩ ↔
      s.base.hasWay ["out"] s.target f.dropLast ∧
        s.base.canWrite ["out"] s.target (Path.withSuffix f ".0.dxbc") := by
  rw [Extraction.unobstructed_of_outputsFor_eq (outputsFor_eq hread), extraction_eq]
  exact Iff.rfl

end

end Extracting

/-! ### Any order

The condition is about the names that are in the input folder and about what they hold. It asks
nothing of the output folder, where anything may be in the way; what is in the way of an output is
in its way in every order. -/

namespace Extracting

variable {w : World} {input output : String} {filter : Option String}
  {choice : Option ShaderChoice}

section

variable {s : Extracting w input output filter choice}

theorem isName_of_mem_files : ∀ f ∈ s.files, ∀ n ∈ f, Path.IsName n := fun _ hf =>
  FileTree.isName_of_mem_walk (List.mem_filter.1 hf).1

variable (hclear : s.extraction.Clear s.base s.files)

include hclear

/-- In any order the same is printed, and the same is added to the tree. -/
theorem exists_run_extractReordered (reorder : List (List String) → List (List String))
    (hreorder : (reorder s.files).Perm s.files) :
    ∃ t, w.run (extractReordered reorder input output filter choice) =
        (.ok (), ended { s.begun s.files with files := t }
          (s.extraction.tallyOfAll s.base s.target s.files)) ∧
      s.base.Overlaid (s.extraction.AddsAny s.base s.target s.files) t := by
  -- the number of files is printed, which is the same in any order
  have hbegun : s.begun (reorder s.files) = s.begun s.files := by
    rw [begun, begun, hreorder.length_eq]
  obtain ⟨t, hrun, hover⟩ := Extraction.exists_runFiles_perm s.located s.apart hclear
    isName_of_mem_files ((w.files.nodup_walk _).filter _) hreorder
    (w := s.begun s.files) rfl
  refine ⟨t, ?_, hover⟩
  rw [run_extractReordered s, hbegun, hrun]

end

end Extracting

open Container in
/-- Two files beside each other. -/
def twoFiles : World where
  files := .ofFiles [(["in", "a"], emptyContainer), (["in", "b"], emptyContainer)]
  printed := ""
  duration := ""

def extractingTwoFiles : Extracting twoFiles "in" "out" none none :=
  have hcreated : twoFiles.files.createFolders ["out"]
      = .ok (twoFiles.files.set ["out"] .folder) := rfl
  .ofFolders hcreated rfl rfl rfl

/-- Where an output of a file has the name of a folder that another one needs, it depends on the
order which of the two is made. -/
theorem Extracting.order_decides {w : World} {input output : String} {filter : Option String}
    {choice : Option ShaderChoice} {s : Extracting w input output filter choice}
    {f g : List String} {o : Output}
    (hfiles : s.files = [f, g]) (honway : Path.withSuffix f o.suffix <+: g.dropLast)
    (ho : o ∈ s.extraction.outputsFor s.base f)
    (hfree : s.extraction.Unobstructed s.base s.target f o)
    (hsome : s.extraction.containersIn s.base g ≠ [])
    (hway : s.extraction.hasWay s.base s.target g) :
    ∃ after after', w.run (perform (.extract input output filter choice)) = (.ok (), after) ∧
      w.run (extractReordered List.reverse input output filter choice) = (.ok (), after') ∧
      after.files.get? (s.target ++ Path.withSuffix f o.suffix) = some (.file o.content) ∧
      after'.files.get? (s.target ++ Path.withSuffix f o.suffix) = some .folder := by
  have hf : ∀ n ∈ f, Path.IsName n := isName_of_mem_files f (hfiles ▸ List.mem_cons_self)
  have hg : ∀ n ∈ g, Path.IsName n :=
    isName_of_mem_files g (hfiles ▸ List.mem_cons_of_mem f List.mem_cons_self)
  have hrun := s.run_extractReordered id
  have hrun' := s.run_extractReordered List.reverse
  have hreverse : [f, g].reverse = [g, f] := rfl
  rw [hfiles, id_eq, ← perform_extract] at hrun
  rw [hfiles, hreverse] at hrun'
  -- the file of the output is extracted first
  obtain ⟨tally, t, hfirst, hfile⟩ := Extraction.exists_runFiles_output_first s.located hf hg
    honway (w := s.begun [f, g]) rfl ho hfree
  -- the file that needs the folder is extracted first
  obtain ⟨tally', t', hsecond, hfolder⟩ := Extraction.exists_runFiles_folder_first s.located hf hg
    honway (w := s.begun [g, f]) rfl hsome hway
  rw [hfirst] at hrun
  rw [hsecond] at hrun'
  exact ⟨_, _, hrun, hrun', hfile, hfolder⟩

open Container in
/-- A file with an output that has the name of a folder. -/
def clashing : World where
  files := .ofFiles [(["in", "a"], emptyContainer), (["in", "a.0.dxbc", "b"], emptyContainer)]
  printed := ""
  duration := ""

def extractingClashing : Extracting clashing "in" "out" none none :=
  have hcreated : clashing.files.createFolders ["out"]
      = .ok (clashing.files.set ["out"] .folder) := rfl
  .ofFolders hcreated rfl rfl rfl

theorem exists_run_clashing :
    ∃ after after', clashing.run (perform (.extract "in" "out" none none)) = (.ok (), after) ∧
      clashing.run (extractReordered List.reverse "in" "out" none none) = (.ok (), after') ∧
      after.files.get? ["out", "a.0.dxbc"] = some (.file Container.emptyContainer) ∧
      after'.files.get? ["out", "a.0.dxbc"] = some .folder := by
  have hfiles : extractingClashing.files = [["a"], ["a.0.dxbc", "b"]] := Extracting.files_eq _
  have ha : extractingClashing.base.read (Path.below ["in"] ["a"])
      = .ok Container.emptyContainer := rfl
  have hb : extractingClashing.base.read (Path.below ["in"] ["a.0.dxbc", "b"])
      = .ok Container.emptyContainer := rfl
  -- the output of the first file has the name of the folder of the second
  have honway : Path.withSuffix ["a"] ".0.dxbc" <+: ["a.0.dxbc", "b"].dropLast := by decide
  have hfree := (Extracting.unobstructed_iff ha).2 ⟨rfl, rfl⟩
  have hway : extractingClashing.extraction.hasWay extractingClashing.base
      extractingClashing.target ["a.0.dxbc", "b"] := by
    rw [Extracting.extraction_eq]
    rfl
  exact Extracting.order_decides hfiles honway
    (Extracting.mem_outputsFor ha) hfree
    (by rw [Extracting.containersIn_eq hb]; exact List.cons_ne_nil _ _) hway

/-- A name that is as long as it can be but for five characters. -/
def longName : String := String.ofList (List.replicate 250 'g')

open Container in
/-- Files with something in the way of their outputs: a folder, a file where a folder is needed, and
the length of a name. -/
def obstructed : World where
  files := .ofFiles [(["in", "c"], emptyContainer), (["in", "d", "e"], emptyContainer),
    (["in", longName], emptyContainer), (["out", "c.0.dxbc", "f"], #[]), (["out", "d"], #[])]
  printed := ""
  duration := ""

def extractingObstructed : Extracting obstructed "in" "out" none none :=
  have hcreated : obstructed.files.createFolders ["out"] = .ok obstructed.files := by
    decide +kernel
  .ofFolders hcreated (by decide +kernel) (by decide +kernel) (by decide +kernel)

theorem exists_run_obstructed :
    ∃ after, obstructed.run (perform (.extract "in" "out" none none)) = (.ok (), after) ∧
      after.files.get? ["out", "c.0.dxbc"] = some .folder ∧
      after.files.get? ["out", "d", "e.0.dxbc"] = none ∧
      after.files.get? ["out", longName ++ ".0.dxbc"] = none := by
  have hfiles : extractingObstructed.files = [["c"], ["d", "e"], [longName]] := by
    rw [Extracting.files_eq]
    decide +kernel
  -- the folders in `in` have shorter names than any output
  have hclear : extractingObstructed.extraction.Clear extractingObstructed.base
      extractingObstructed.files := by
    rw [hfiles]
    exact Extraction.clear_of_length_le (by decide)
  obtain ⟨t, hrun, hover⟩ :=
    Extracting.exists_run_extractReordered hclear id (List.Perm.refl _)
  rw [← perform_extract] at hrun
  have hleft {f : List String} (hf : f ∈ extractingObstructed.files)
      (hread : obstructed.files.read (Path.below ["in"] f) = .ok Container.emptyContainer)
      (hblocked : ¬ (obstructed.files.hasWay ["out"] ["out"] f.dropLast ∧
        obstructed.files.canWrite ["out"] ["out"] (Path.withSuffix f ".0.dxbc"))) :
      t.get? (["out"] ++ Path.withSuffix f ".0.dxbc")
        = obstructed.files.get? (["out"] ++ Path.withSuffix f ".0.dxbc") := by
    have hoccupied := mt (Extracting.unobstructed_iff (s := extractingObstructed) hread).1 hblocked
    exact (Extraction.get?_output hclear Extracting.isName_of_mem_files hover hf
      (Extracting.mem_outputsFor hread)).2 hoccupied
  have hc := hleft (f := ["c"]) (by rw [hfiles]; decide) (by decide +kernel) (by decide +kernel)
  have he := hleft (f := ["d", "e"]) (by rw [hfiles]; decide) (by decide +kernel)
    (by decide +kernel)
  have hlong := hleft (f := [longName]) (by rw [hfiles]; simp) (by decide +kernel)
    (by decide +kernel)
  exact ⟨_, hrun, hc.trans (by decide +kernel), he.trans (by decide +kernel),
    hlong.trans (by decide +kernel)⟩

end Command
end ShaderBytecode
