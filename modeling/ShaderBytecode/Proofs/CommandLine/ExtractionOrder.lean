import Mathlib.Data.List.Perm.Basic
import Mathlib.Data.List.TakeWhile
import ShaderBytecode.Proofs.CommandLine.ExtractedFile

/-!
# The order of extraction

The files of a folder are extracted one after the other, and all of them into one output folder.
What a file adds depends on the tree in front of it. `exists_run_extractFiles` shows that it may as
well be read off the tree in front of all of them: a file takes from the input folder, in which
nothing is added, and a place below the output folder that one file adds to means nothing to
another one, unless it is the folder on the way to its outputs.

    tallyOf_eq, adds_iff     : the files before it change neither how a file counts nor what it adds
    exists_run_extractFiles  : what a number of files add together
    extractFiles_perm        : files in another order leave the same

The condition that is left is about names. An output `a.0.dxbc` cannot be written where a folder
`a.0.dxbc` is needed for the outputs of other files (`Extraction.Clear`).
-/

namespace ShaderBytecode

/-- Neither of two places is inside the other. -/
def Place.Apart (p q : Place) : Prop := ¬ p <+: q ∧ ¬ q <+: p

instance (p q : Place) : Decidable (p.Apart q) := inferInstanceAs (Decidable (_ ∧ _))

namespace Extraction

variable {x : Extraction} {t t' : FileTree} {source target : Place}

/-- No output of a file is a folder on the way to outputs of another one. -/
def Clear (x : Extraction) (t : FileTree) (files : List (List String)) : Prop :=
  ∀ f ∈ files, ∀ g ∈ files, x.containersIn t g ≠ [] → ∀ o ∈ x.outputsFor t f,
    ¬ Path.withSuffix f o.suffix <+: g.dropLast

/-- The names of outputs are longer than those of short folders. -/
theorem clear_of_length_le {files : List (List String)}
    (h : ∀ f ∈ files, ∀ n ∈ f.dropLast, n.length ≤ 2) : x.Clear t files := by
  intro f _ g hg _ o ho honway
  have hmem : f.getLastD "" ++ o.suffix ∈ g.dropLast := honway.subset (by simp [Path.withSuffix])
  have hlength := h g hg _ hmem
  have := two_lt_length_suffix ho
  rw [String.length_append] at hlength
  omega

/-- What a number of files add. -/
def AddsAny (x : Extraction) (t : FileTree) (target : Place) (files : List (List String))
    (q : Place) (e : Entry) : Prop :=
  ∃ f ∈ files, x.Adds t target f q e

/-! ### What is added by a file

What a file adds is a relation between places and entries, so that two descriptions can be compared
place by place. -/

section

variable {names : List String} {q : Place} {e : Entry}

theorem Adds.containersIn_ne_nil (h : x.Adds t target names q e) : x.containersIn t names ≠ [] :=
  fun hnone => not_adds_of_containersIn_eq_nil hnone q e h

/-- Everything is added below the output folder. -/
theorem Adds.isPrefix (h : x.Adds t target names q e) : target <+: q := by
  cases h <;> exact List.prefix_append _ _

/-- No file is put where a folder is. -/
theorem Adds.eq_folder_or (h : x.Adds t target names q e) :
    e = .folder ∨ t.get? q ≠ some .folder := by
  cases h with
  | folder _ _ _ => exact .inl rfl
  | file _ ho =>
    have hcan := isFolder_of_canWrite (List.mem_takeWhile_imp ho)
    exact .inr fun hget => absurd (FileTree.isFolder_iff.2 hget) (by simp [hcan])

end

/-! ### Files beside each other

The names of outputs tell their files (`names_eq_of_withSuffix_eq`), so two files can only meet at
folders, and there both want the same entry. What remains is an output of one at a folder of the
other, which `Clear` excludes. -/

section

variable {files : List (List String)} (hclear : x.Clear t files)
  (hnames : ∀ f ∈ files, ∀ n ∈ f, Path.IsName n) {f g : List String} (hf : f ∈ files)
  (hg : g ∈ files)

include hclear hnames hf hg

/-- No other file adds anything where an output of a file goes. -/
theorem eq_of_adds_output {o : Output} (ho : o ∈ x.outputsFor t f) {e : Entry}
    (h : x.Adds t target g (target ++ Path.withSuffix f o.suffix) e) : f = g := by
  generalize hq : target ++ Path.withSuffix f o.suffix = q at h
  cases h with
  -- the folder would have the name of this output
  | folder hsome _ hp =>
    rw [← List.append_cancel_left hq] at hp
    exact absurd hp (hclear f hf g hg hsome o ho)
  | file _ ho' =>
    exact names_eq_of_withSuffix_eq (hnames f hf) (hnames g hg) ho
      ((List.takeWhile_prefix _).subset ho') (List.append_cancel_left hq)

/-- Two files do not contradict each other. -/
theorem entry_eq_of_adds (hne : f ≠ g) {q : Place} {e e' : Entry} (h : x.Adds t target f q e)
    (h' : x.Adds t target g q e') : e = e' := by
  cases h with
  | file _ ho =>
    have hmem := (List.takeWhile_prefix _).subset ho
    exact absurd (eq_of_adds_output hclear hnames hf hg hmem h') hne
  | folder hsome hway hp =>
    generalize hq : target ++ _ = q at h'
    cases h' with
    | folder _ _ _ => rfl
    | @file o _ ho' =>
      -- the other file has its output where this one needs a folder
      have hadds : x.Adds t target f (target ++ Path.withSuffix g o.suffix) .folder :=
        hq ▸ .folder hsome hway hp
      have := eq_of_adds_output hclear hnames hg hf ((List.takeWhile_prefix _).subset ho') hadds
      exact absurd this.symm hne

end

/-! ### Files behind each other

Now some files have been extracted and another one follows. The tree in front of it differs from the
first tree at places that were added to, and each of the four things that it looks at is shown to be
the same: what the input file holds, the way to the folder, whether an output can be written, and so
which outputs are. -/

theorem takeWhile_congr_of_mem {α : Type} {p q : α → Bool} {l : List α} (h : ∀ a ∈ l, p a = q a) :
    l.takeWhile p = l.takeWhile q := by
  induction l with
  | nil => rfl
  | cons a l ih =>
    rw [List.takeWhile_cons, List.takeWhile_cons, h a List.mem_cons_self,
      ih fun b hb => h b (List.mem_cons_of_mem a hb)]

section

variable {done : List (List String)} (hover : t.Overlaid (x.AddsAny t target done) t')

include hover

theorem keeps_of_overlaid : t.Keeps t' :=
  hover.keeps fun _ _ ⟨_, _, hadds⟩ => hadds.eq_folder_or

/-- Nothing is added in the input folder. -/
theorem get?_source (hapart : source.Apart target) (p : List String) :
    t'.get? (source ++ p) = t.get? (source ++ p) := by
  refine hover.kept ?_
  rintro e ⟨f, -, hadds⟩
  rcases List.prefix_or_prefix_of_prefix (List.prefix_append source p) hadds.isPrefix with h | h
  · exact hapart.1 h
  · exact hapart.2 h

/-- So the input files are what they were. -/
theorem read_source (hlocated : x.Located t target source) (hapart : source.Apart target)
    {names : List String} (hnames : ∀ n ∈ names, Path.IsName n) :
    t'.read (x.input.below names) = t.read (x.input.below names) := by
  have hlocated' := hlocated.of_keeps (keeps_of_overlaid hover)
  refine FileTree.read_congr ?_ fun place hplace => ?_
  · -- the file is found at the same place
    by_cases hne : names = []
    · subst hne
      exact hlocated'.input.trans hlocated.input.symm
    · unfold FileTree.locate
      rw [FileTree.follow_below hlocated'.input hne, FileTree.follow_below hlocated.input hne,
        FileTree.follow_names_congr hnames fun p _ => get?_source hover hapart p]
  · -- what is found is at the place of the input folder with the names behind it
    suffices place = source ++ names by rw [this, get?_source hover hapart names]
    by_cases hne : names = []
    · subst hne
      cases hlocated.input.symm.trans hplace
      exact (List.append_nil _).symm
    · have hfollow := (FileTree.follow_of_locate hplace).1
      rw [FileTree.follow_below hlocated.input hne] at hfollow
      exact (FileTree.eq_append_of_follow_names hnames hfollow).1

theorem containersIn_source (hlocated : x.Located t target source) (hapart : source.Apart target)
    {names : List String} (hnames : ∀ n ∈ names, Path.IsName n) :
    x.containersIn t' names = x.containersIn t names := by
  unfold containersIn
  rw [read_source hover hlocated hapart hnames]

section

variable {files : List (List String)} (hclear : x.Clear t files)
  (hnames : ∀ f ∈ files, ∀ n ∈ f, Path.IsName n) (hdone : ∀ g ∈ done, g ∈ files)
  {f : List String} (hf : f ∈ files)

include hclear hdone hf

/-- No folder for the outputs of a file is taken by an output of another one. -/
theorem hasWay_eq (hsome : x.containersIn t f ≠ []) :
    x.hasWay t' target f = x.hasWay t target f := by
  have hfile {p : List String} (hp : p <+: f.dropLast) :
      t'.isFile (target ++ p) = t.isFile (target ++ p) := by
    by_cases hadded : ∃ e, x.AddsAny t target done (target ++ p) e
    · -- something was added on the way; had it been an output, the two files would clash
      obtain ⟨e, g, hg, hadds⟩ := hadded
      have hget := hover.added ⟨g, hg, hadds⟩
      generalize hq : target ++ p = q at hadds hget
      cases hadds with
      | folder _ hway hp' =>
        rw [(FileTree.hasWay_iff.1 hway).2 _ hp', FileTree.isFile, hget]
      | @file o _ ho =>
        rw [List.append_cancel_left hq] at hp
        exact absurd hp
          (hclear g (hdone g hg) f hf hsome o ((List.takeWhile_prefix _).subset ho))
    · rw [not_exists] at hadded
      rw [FileTree.isFile, FileTree.isFile, hover.kept hadded]
  rw [Bool.eq_iff_iff]
  refine FileTree.hasWay_iff.trans (Iff.trans ?_ FileTree.hasWay_iff.symm)
  exact and_congr_right fun _ => forall₂_congr fun p hp => by rw [hfile hp]

include hnames

/-- No output of a file is where another one has added a folder. -/
theorem canWrite_eq (hnew : f ∉ done) {o : Output} (ho : o ∈ x.outputsFor t f) :
    x.canWrite t' target f o = x.canWrite t target f o := by
  have hget : t'.get? (target ++ Path.withSuffix f o.suffix)
      = t.get? (target ++ Path.withSuffix f o.suffix) := by
    refine hover.kept ?_
    -- another file would have to add something where this one writes
    rintro e ⟨g, hg, hadds⟩
    have := eq_of_adds_output hclear hnames hf (hdone g hg) ho hadds
    exact hnew (this ▸ hg)
  simp only [canWrite, FileTree.canWrite, FileTree.isFolder, hget]

/-- The files before a file do not change what is written for it. -/
theorem takeWhile_canWrite_eq (hnew : f ∉ done) :
    (x.outputsFor t f).takeWhile (x.canWrite t' target f)
      = (x.outputsFor t f).takeWhile (x.canWrite t target f) :=
  takeWhile_congr_of_mem fun _ ho => canWrite_eq hover hclear hnames hdone hf hnew ho

end

section

variable (hlocated : x.Located t target source) (hapart : source.Apart target)
  {files : List (List String)} (hclear : x.Clear t files)
  (hnames : ∀ f ∈ files, ∀ n ∈ f, Path.IsName n) (hdone : ∀ g ∈ done, g ∈ files)
  {f : List String} (hf : f ∈ files) (hnew : f ∉ done)

include hlocated hapart hclear hnames hdone hf hnew

/-- The files before a file do not change how it counts. -/
theorem tallyOf_eq : x.tallyOf t' target f = x.tallyOf t target f := by
  have hblobs := containersIn_source hover hlocated hapart (hnames f hf)
  have houtputs : x.outputsFor t' f = x.outputsFor t f := by rw [outputsFor, outputsFor, hblobs]
  unfold tallyOf
  rw [read_source hover hlocated hapart (hnames f hf), hblobs, houtputs]
  cases t.read (x.input.below f) with
  | error fault => rfl
  | ok data =>
    dsimp only
    split
    · rfl
    · next hsome =>
      -- each output can be written if it could be before
      have hall : (x.outputsFor t f).all (x.canWrite t' target f)
          = (x.outputsFor t f).all (x.canWrite t target f) := by
        rw [Bool.eq_iff_iff, List.all_eq_true, List.all_eq_true]
        exact forall₂_congr fun o ho => by rw [canWrite_eq hover hclear hnames hdone hf hnew ho]
      rw [hasWay_eq hover hclear hdone hf hsome, hall]

/-- The files before a file do not change what it adds. -/
theorem adds_iff {q : Place} {e : Entry} : x.Adds t' target f q e ↔ x.Adds t target f q e := by
  -- the four things that are looked at, each as it was
  have hblobs := containersIn_source hover hlocated hapart (hnames f hf)
  have houtputs : x.outputsFor t' f = x.outputsFor t f := by rw [outputsFor, outputsFor, hblobs]
  have hway := hasWay_eq hover hclear hdone hf
  have hwritten := takeWhile_canWrite_eq hover hclear hnames hdone hf hnew
  constructor
  · intro hadds
    have hsome := hblobs ▸ hadds.containersIn_ne_nil
    cases hadds with
    | folder _ hway' hp => exact .folder hsome (hway hsome ▸ hway') hp
    | file hway' ho => exact .file (hway hsome ▸ hway') (by rwa [houtputs, hwritten] at ho)
  · intro hadds
    have hsome := hadds.containersIn_ne_nil
    cases hadds with
    | folder _ hway' hp =>
      exact .folder (hblobs.symm ▸ hsome) ((hway hsome).symm ▸ hway') hp
    | file hway' ho =>
      exact .file ((hway hsome).symm ▸ hway') (by rwa [houtputs, hwritten])

end

end

/-! ### All files

The induction is over the files that are still to come, for any list of files that are done. The
tree it starts from is fixed: what is done is laid over that tree, so each step asks only what the
next file adds to it. -/

/-- The extraction of some files, and the world after it. -/
def runFiles (x : Extraction) (files : List (List String)) (w : World) : Tally × World :=
  (x.extractFiles files : StateM World Tally) w

/-- How a number of files count. -/
def tallyOfAll (x : Extraction) (t : FileTree) (target : Place) (files : List (List String)) :
    Tally :=
  (files.map (x.tallyOf t target)).foldr Tally.add .none

/-- A file is extracted, and then the others. -/
theorem runFiles_cons {names : List String} {rest : List (List String)} {w after : World}
    {result : Except FileFault Tally} (h : w.run (x.extractFile names) = (result, after)) :
    x.runFiles (names :: rest) w =
      ((Tally.ofResult result).add (x.runFiles rest after).1, (x.runFiles rest after).2) := by
  have hfirst : StateT.run (m := Id) (x.extractFile names).run w = (result, after) := h
  change StateT.run (m := Id) (x.extractFiles (names :: rest)) w = _
  rw [extractFiles, StateT.run_bind, hfirst]
  cases result <;> rfl

/-- **What a number of files add.** Whatever has been extracted before, each file adds to the tree
in front of all of them and counts by it. -/
theorem exists_runFiles (hlocated : x.Located t target source)
    (hapart : source.Apart target) {done files : List (List String)}
    (hclear : x.Clear t (done ++ files)) (hnames : ∀ f ∈ done ++ files, ∀ n ∈ f, Path.IsName n)
    (hnodup : (done ++ files).Nodup) {w : World}
    (hover : t.Overlaid (x.AddsAny t target done) w.files) :
    ∃ t', x.runFiles files w = (x.tallyOfAll t target files, { w with files := t' }) ∧
      t.Overlaid (x.AddsAny t target (done ++ files)) t' := by
  induction files generalizing done w with
  | nil => exact ⟨w.files, rfl, by rwa [List.append_nil]⟩
  | cons f files ih =>
    have hf : f ∈ done ++ f :: files := by simp
    have hdone : ∀ g ∈ done, g ∈ done ++ f :: files := fun g hg => List.mem_append_left _ hg
    have hnew : f ∉ done := by
      intro hmem
      rw [List.nodup_append] at hnodup
      exact hnodup.2.2 f hmem f List.mem_cons_self rfl
    -- the next file, by the tree in front of it
    obtain ⟨result, t', hrun, htally, hadds⟩ := exists_run_extractFile (w := w)
      (hlocated.of_keeps (keeps_of_overlaid hover)) (hnames f hf)
    rw [tallyOf_eq hover hlocated hapart hclear hnames hdone hf hnew] at htally
    have hover' : t.Overlaid (x.AddsAny t target (done ++ [f])) t' := by
      -- and by the tree in front of all of them
      have hiff {q : Place} {e : Entry} :=
        @adds_iff _ _ _ _ _ _ hover hlocated hapart _ hclear hnames hdone _ hf hnew q e
      refine (hover.trans hadds ?_).mono ?_ ?_
      · rintro q e e' ⟨g, hg, h⟩ h'
        have hne : g ≠ f := fun heq => hnew (heq ▸ hg)
        exact entry_eq_of_adds hclear hnames (hdone g hg) hf hne h (hiff.1 h')
      · rintro q e (⟨g, hg, h⟩ | h)
        · exact ⟨g, List.mem_append_left _ hg, h⟩
        · exact ⟨f, by simp, hiff.1 h⟩
      · rintro q e ⟨g, hg, h⟩
        rcases List.mem_append.1 hg with hg | hg
        · exact .inl (.inl ⟨g, hg, h⟩)
        · rw [List.mem_singleton.1 hg] at h
          exact .inl (.inr (hiff.2 h))
    rw [List.append_cons] at hclear hnames hnodup ⊢
    obtain ⟨t'', hrest, hover''⟩ :=
      @ih (done ++ [f]) hclear hnames hnodup { w with files := t' } hover'
    refine ⟨t'', ?_, hover''⟩
    rw [runFiles_cons hrun, hrest, htally]
    rfl

section

variable (hlocated : x.Located t target source) (hapart : source.Apart target)
  {files : List (List String)} (hclear : x.Clear t files)
  (hnames : ∀ f ∈ files, ∀ n ∈ f, Path.IsName n) (hnodup : files.Nodup)

theorem tallyOfAll_perm {files' : List (List String)} (hperm : files.Perm files') :
    x.tallyOfAll t target files = x.tallyOfAll t target files' := by
  -- counts are added up, and sums do not depend on the order
  have hcomm : LeftCommutative Tally.add := ⟨fun r s u => by
    simp only [Tally.add, Tally.mk.injEq]
    omega⟩
  exact (hperm.map _).foldr_eq _

include hlocated hapart hclear hnames hnodup

/-- **The order of files does not matter.** The same files in another order count alike, and leave
the same at every place. -/
theorem exists_runFiles_perm {files' : List (List String)} (hperm : files'.Perm files) {w : World}
    (hw : w.files = t) :
    ∃ t', x.runFiles files' w = (x.tallyOfAll t target files, { w with files := t' }) ∧
      t.Overlaid (x.AddsAny t target files) t' := by
  have hnone : t.Overlaid (x.AddsAny t target []) w.files := by
    rw [hw]
    exact (FileTree.Overlaid.refl t).mono nofun fun _ _ ⟨_, hf, _⟩ => nomatch hf
  have hclear' : x.Clear t ([] ++ files') := fun f hf g hg =>
    hclear f (hperm.mem_iff.1 hf) g (hperm.mem_iff.1 hg)
  obtain ⟨t', hrun, hover⟩ := exists_runFiles hlocated hapart hclear'
    (fun f hf => hnames f (hperm.mem_iff.1 hf)) (hperm.nodup_iff.2 hnodup) hnone
  refine ⟨t', by rw [hrun, tallyOfAll_perm hperm], hover.mono ?_ ?_⟩
  · rintro q e ⟨f, hf, h⟩
    exact ⟨f, hperm.mem_iff.1 hf, h⟩
  · rintro q e ⟨f, hf, h⟩
    exact .inl ⟨f, hperm.mem_iff.2 hf, h⟩

end

/-! ### Outputs

Whether an output is written is read off the tree in front of all files as well, and it does not
matter which file is looked at: no other adds anything at its place. -/

/-- Nothing is in the way of an output of a file, nor of those in front of it. -/
def Unobstructed (x : Extraction) (t : FileTree) (target : Place) (names : List String)
    (o : Output) : Prop :=
  x.hasWay t target names ∧ ∃ before rest, x.outputsFor t names = before ++ o :: rest ∧
    ∀ o' ∈ before ++ [o], x.canWrite t target names o'

theorem unobstructed_iff {names : List String} {o : Output} :
    x.Unobstructed t target names o ↔ x.hasWay t target names ∧
      o ∈ (x.outputsFor t names).takeWhile (x.canWrite t target names) := by
  refine and_congr_right fun _ => ⟨?_, fun ho => ?_⟩
  · rintro ⟨before, rest, houtputs, hcan⟩
    rw [houtputs, List.append_cons, List.takeWhile_append_of_pos hcan]
    exact List.mem_append_left _ (by simp)
  · obtain ⟨before, between, hwritten⟩ := List.append_of_mem ho
    -- the outputs are those that are written and the others behind them
    refine ⟨before, between ++ (x.outputsFor t names).dropWhile (x.canWrite t target names), ?_, ?_⟩
    · rw [← List.cons_append, ← List.append_assoc, ← hwritten, List.takeWhile_append_dropWhile]
    · intro o' ho'
      refine List.mem_takeWhile_imp (l := x.outputsFor t names) ?_
      rw [hwritten, List.append_cons]
      exact List.mem_append_left _ ho'

theorem unobstructed_of_outputsFor_eq {names : List String} {o : Output}
    (h : x.outputsFor t names = [o]) : x.Unobstructed t target names o ↔
      x.hasWay t target names ∧ x.canWrite t target names o := by
  rw [unobstructed_iff, h]
  refine and_congr_right fun _ => ?_
  rw [List.takeWhile_cons]
  split
  · next hcan => simp [hcan]
  · next hcannot => simp [hcannot]

/-- **What becomes of an output.** It is at its place in the end if nothing was in the way when the
extraction began. Otherwise the place is left as it was. -/
theorem get?_output {files : List (List String)} (hclear : x.Clear t files)
    (hnames : ∀ f ∈ files, ∀ n ∈ f, Path.IsName n)
    (hover : t.Overlaid (x.AddsAny t target files) t') {f : List String} (hf : f ∈ files)
    {o : Output} (ho : o ∈ x.outputsFor t f) :
    (x.Unobstructed t target f o →
      t'.get? (target ++ Path.withSuffix f o.suffix) = some (.file o.content)) ∧
    (¬ x.Unobstructed t target f o →
      t'.get? (target ++ Path.withSuffix f o.suffix)
        = t.get? (target ++ Path.withSuffix f o.suffix)) := by
  rw [unobstructed_iff]
  refine ⟨fun ⟨hway, hwritten⟩ => hover.added ⟨f, hf, .file hway hwritten⟩, fun hobstructed => ?_⟩
  refine hover.kept ?_
  rintro e ⟨g, hg, hadds⟩
  obtain rfl := eq_of_adds_output hclear hnames hf hg ho hadds
  generalize hq : target ++ Path.withSuffix f o.suffix = q at hadds
  cases hadds with
  | folder _ _ hp =>
    exact Path.ne_withSuffix_of_isPrefix hp (List.append_cancel_left hq).symm
  | file hway ho' =>
    have hsuffix := Path.withSuffix_injective (List.append_cancel_left hq)
    have := outputs_suffix_inj ho ((List.takeWhile_prefix _).subset ho') hsuffix
    exact hobstructed ⟨hway, this ▸ ho'⟩

/-! ### Outputs in each other's way

The two orders are compared for a pair of files of which one has an output at a folder that the
other one needs. In each order the first file gets what it needs, and what it has made is kept when
the second is extracted. -/

section

variable {f g : List String} {o : Output} (hlocated : x.Located t target source)
  (hf : ∀ n ∈ f, Path.IsName n) (hg : ∀ n ∈ g, Path.IsName n)
  (honway : Path.withSuffix f o.suffix <+: g.dropLast) {w : World} (hw : w.files = t)

include hlocated hf hg honway hw

/-- A file that comes first keeps its output, even where another one needs a folder. -/
theorem exists_runFiles_output_first (ho : o ∈ x.outputsFor t f)
    (hfree : x.Unobstructed t target f o) :
    ∃ tally t', x.runFiles [f, g] w = (tally, { w with files := t' }) ∧
      t'.get? (target ++ Path.withSuffix f o.suffix) = some (.file o.content) := by
  subst hw
  obtain ⟨hway, hwritten⟩ := unobstructed_iff.1 hfree
  obtain ⟨first, t₁, hrun₁, -, hover₁⟩ := exists_run_extractFile hlocated hf
  have hlocated₁ : x.Located t₁ target source :=
    hlocated.of_keeps (hover₁.keeps fun _ _ h => h.eq_folder_or)
  -- the first file has written its output
  have hfile := hover₁.added (.file hway hwritten)
  obtain ⟨second, t₂, hrun₂, -, hover₂⟩ :=
    exists_run_extractFile (w := { w with files := t₁ }) hlocated₁ hg
  refine ⟨_, t₂, by rw [runFiles_cons hrun₁, runFiles_cons hrun₂]; rfl, ?_⟩
  rw [hover₂.kept, hfile]
  -- and the second adds nothing there
  intro e hadds
  generalize hq : target ++ Path.withSuffix f o.suffix = q at hadds
  cases hadds with
  | folder _ hway' _ =>
    have hblocked := (FileTree.hasWay_iff.1 hway').2 _ honway
    rw [FileTree.isFile, hfile] at hblocked
    cases hblocked
  | file _ ho' =>
    have heq := List.append_cancel_left hq
    obtain rfl := names_eq_of_withSuffix_eq hf hg ho ((List.takeWhile_prefix _).subset ho') heq
    exact Path.ne_withSuffix_of_isPrefix honway rfl

/-- A file that comes first keeps the folder around its outputs. -/
theorem exists_runFiles_folder_first (hsome : x.containersIn t g ≠ [])
    (hway : x.hasWay t target g) :
    ∃ tally t', x.runFiles [g, f] w = (tally, { w with files := t' }) ∧
      t'.get? (target ++ Path.withSuffix f o.suffix) = some .folder := by
  subst hw
  obtain ⟨first, t₁, hrun₁, -, hover₁⟩ := exists_run_extractFile hlocated hg
  have hlocated₁ : x.Located t₁ target source :=
    hlocated.of_keeps (hover₁.keeps fun _ _ h => h.eq_folder_or)
  have hfolder := hover₁.added (.folder hsome hway honway)
  obtain ⟨second, t₂, hrun₂, -, hover₂⟩ :=
    exists_run_extractFile (w := { w with files := t₁ }) hlocated₁ hf
  refine ⟨_, t₂, by rw [runFiles_cons hrun₁, runFiles_cons hrun₂]; rfl, ?_⟩
  exact hover₂.keeps (fun _ _ h => h.eq_folder_or) _ hfolder

end

end Extraction
end ShaderBytecode
