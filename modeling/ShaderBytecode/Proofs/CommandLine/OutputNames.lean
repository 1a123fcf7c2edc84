import Mathlib.Data.List.Basic
import ShaderBytecode.CommandLine.Extraction
import ShaderBytecode.Proofs.Files.Paths

/-!
# The names of outputs

An output is named after its file, with a number and a kind behind it. Neither a number nor a kind
holds a point, so the name of an output tells all three (`eq_of_append_suffix`): no two outputs of a
file have one name, and none has the name of an output of another file of the folder.
-/

namespace ShaderBytecode

/-! ### Names with something behind them

A suffix goes behind the last name and leaves the folders. So an output is at the depth of its file,
and no folder around it is an output. -/

namespace Path

@[simp] theorem dropLast_withSuffix (names : List String) (suffix : String) :
    (withSuffix names suffix).dropLast = names.dropLast := by
  simp [withSuffix]

theorem getLastD_withSuffix (names : List String) (suffix : String) :
    (withSuffix names suffix).getLastD "" = names.getLastD "" ++ suffix := by
  simp [withSuffix]

theorem withSuffix_ne_nil {names : List String} {suffix : String} :
    withSuffix names suffix ≠ [] :=
  List.concat_ne_nil _ _

/-- An output is none of the folders around it. -/
theorem ne_withSuffix_of_isPrefix {names p : List String} {suffix : String}
    (h : p <+: names.dropLast) : p ≠ withSuffix names suffix := by
  rintro rfl
  have hlength := h.length_le
  rw [withSuffix, List.length_append, List.length_singleton] at hlength
  omega

theorem withSuffix_injective {names : List String} {suffix suffix' : String}
    (h : withSuffix names suffix = withSuffix names suffix') : suffix = suffix' := by
  have hlast := congrArg (List.getLastD · "") h
  rw [getLastD_withSuffix, getLastD_withSuffix] at hlast
  exact (String.append_right_inj _).1 hlast

/-- A longer text than `..` is the name of an entry. -/
theorem isName_append {name suffix : String} (h : 2 < suffix.length) : IsName (name ++ suffix) := by
  have hlength : 2 < (name ++ suffix).length := by
    rw [String.length_append]
    omega
  -- too long to be empty, `.` or `..`
  refine ⟨?_, fun heq => ?_⟩
  · rw [staysAt, Bool.or_eq_false_iff, beq_eq_false_iff_ne, beq_eq_false_iff_ne]
    constructor <;> rintro heq <;> rw [heq] at hlength <;> exact absurd hlength (by decide)
  · rw [heq] at hlength
    exact absurd hlength (by decide)

theorem isName_withSuffix {names : List String} {suffix : String}
    (hnames : ∀ n ∈ names, IsName n) (h : 2 < suffix.length) :
    ∀ n ∈ withSuffix names suffix, IsName n := by
  intro n hn
  rcases List.mem_append.1 hn with hn | hn
  · exact hnames n (List.mem_of_mem_dropLast hn)
  · rw [List.mem_singleton.1 hn]
    exact isName_append h

/-- Names are told by those in front of the last and by the last, if none is empty. -/
theorem eq_of_getLastD_eq {names names' : List String} (hnames : ∀ n ∈ names, IsName n)
    (hnames' : ∀ n ∈ names', IsName n) (haround : names.dropLast = names'.dropLast)
    (hlast : names.getLastD "" = names'.getLastD "") : names = names' := by
  rcases List.eq_nil_or_concat' names with rfl | ⟨around, last, rfl⟩ <;>
    rcases List.eq_nil_or_concat' names' with rfl | ⟨around', last', rfl⟩
  · rfl
  · rw [List.getLastD_concat] at hlast
    exact absurd hlast.symm (hnames' last' (by simp)).ne_empty
  · rw [List.getLastD_concat] at hlast
    exact absurd hlast (hnames last (by simp)).ne_empty
  · rw [List.dropLast_concat, List.dropLast_concat] at haround
    rw [List.getLastD_concat, List.getLastD_concat] at hlast
    rw [haround, hlast]

end Path

/-! ### Suffixes

A suffix is `.`, the number in decimal digits, `.` and the kind. The last point cuts off the kind,
and the point in front of the digits is then the last one of what is left, so all parts can be read
off the whole name. -/

/-- The last point of a text cuts it in one way. -/
theorem eq_of_last_point {front front' rest rest' : List Char} (hrest : '.' ∉ rest)
    (hrest' : '.' ∉ rest') (h : front ++ '.' :: rest = front' ++ '.' :: rest') :
    front = front' ∧ rest = rest' := by
  rcases List.append_eq_append_iff.1 h with ⟨between, rfl, hbetween⟩ | ⟨between, rfl, hbetween⟩
  all_goals
    cases between with
    | nil =>
      cases hbetween
      exact ⟨(List.append_nil _).symm ▸ rfl, rfl⟩
    -- what is between the two points would hold one of them
    | cons _ between =>
      cases hbetween
      simp at hrest hrest'

theorem point_notMem_toDigits (n : Nat) : '.' ∉ Nat.toDigits 10 n :=
  fun h => absurd (Nat.isDigit_of_mem_toDigits (by decide) (by decide) h) (by decide)

/-- A number and a kind, each behind a point. -/
structure IsSuffix (number : Nat) (kind : List Char) (suffix : String) : Prop where
  toList_eq : suffix.toList = '.' :: (Nat.toDigits 10 number ++ '.' :: kind)
  pointless : '.' ∉ kind

namespace IsSuffix

variable {number number' : Nat} {kind kind' : List Char} {suffix suffix' : String}

theorem two_lt_length (h : IsSuffix number kind suffix) : 2 < suffix.length := by
  have hdigits : 0 < (Nat.toDigits 10 number).length := Nat.length_toDigits_pos
  rw [← String.length_toList, h.toList_eq]
  simp only [List.length_cons, List.length_append]
  omega

/-- The text in front of a suffix, the number and the kind are told by all of the text. -/
theorem eq_of_append (h : IsSuffix number kind suffix) (h' : IsSuffix number' kind' suffix')
    {front front' : String} (heq : front ++ suffix = front' ++ suffix') :
    front = front' ∧ number = number' ∧ kind = kind' := by
  have hlists := congrArg String.toList heq
  simp only [String.toList_append, h.toList_eq, h'.toList_eq, ← List.cons_append,
    ← List.append_assoc] at hlists
  obtain ⟨hfront, rfl⟩ := eq_of_last_point h.pointless h'.pointless hlists
  obtain ⟨hname, hdigits⟩ :=
    eq_of_last_point (point_notMem_toDigits _) (point_notMem_toDigits _) hfront
  have hread := congrArg (Nat.ofDigitChars 10 · 0) hdigits -- the digits are read back
  exact ⟨String.toList_inj.1 hname, by simpa only [Nat.ofDigitChars_ten_toDigits] using hread, rfl⟩

end IsSuffix

/-! ### Outputs

The outputs of a container are its bytes and, perhaps, its shader. Numbers tell the containers of a
file apart, kinds the two outputs of a container, and the fronts the files of a folder. -/

theorem mem_outputsOf_iff {options : Option Glsl.Options} {blob : Bytes} {number : Nat}
    {o : Output} : o ∈ outputsOf options blob number ↔ o = ⟨s!".{number}.dxbc", blob⟩ ∨
      ∃ glsl, shaderOf? options blob = some (.ok glsl) ∧
        o = ⟨s!".{number}.glsl", Utf8.encode glsl⟩ := by
  unfold outputsOf
  rw [List.mem_cons]
  refine or_congr Iff.rfl ?_
  split
  · next glsl h => simp [h]
  · next hnone =>
    refine iff_of_false nofun ?_
    rintro ⟨glsl, h, -⟩
    exact hnone glsl h

/-- A number between two texts that begin with a point. -/
theorem isSuffix_numbered {number : Nat} {kind : List Char} {text : String}
    (htext : text.toList = '.' :: kind) (hkind : '.' ∉ kind) :
    IsSuffix number kind ("." ++ toString number ++ text) := by
  refine ⟨?_, hkind⟩
  have hnumber : (toString number).toList = Nat.toDigits 10 number := Nat.toList_repr
  rw [String.toList_append, String.toList_append, hnumber, htext]
  rfl

theorem exists_isSuffix {options : Option Glsl.Options} {blob : Bytes} {number : Nat} {o : Output}
    (h : o ∈ outputsOf options blob number) : ∃ kind, IsSuffix number kind o.suffix := by
  rcases mem_outputsOf_iff.1 h with rfl | ⟨glsl, -, rfl⟩
  · exact ⟨"dxbc".toList, isSuffix_numbered rfl (by decide)⟩
  · exact ⟨"glsl".toList, isSuffix_numbered rfl (by decide)⟩

/-- The outputs for a container have different kinds. -/
theorem outputsOf_suffix_inj {options : Option Glsl.Options} {blob : Bytes} {number : Nat}
    {o o' : Output} (h : o ∈ outputsOf options blob number)
    (h' : o' ∈ outputsOf options blob number) (heq : o.suffix = o'.suffix) : o = o' := by
  -- the kinds differ, and they stand behind the same number
  have hkinds {text text' : String} (hne : text ≠ text') :
      "." ++ toString number ++ text ≠ "." ++ toString number ++ text' :=
    fun h => hne ((String.append_right_inj _).1 h)
  rcases mem_outputsOf_iff.1 h with rfl | ⟨glsl, hglsl, rfl⟩ <;>
    rcases mem_outputsOf_iff.1 h' with rfl | ⟨glsl', hglsl', rfl⟩
  · rfl
  · exact absurd heq (hkinds (by decide))
  · exact absurd heq (hkinds (by decide))
  · cases hglsl.symm.trans hglsl'
    rfl

namespace Extraction

/-- The files to be written for containers, numbered from 0. -/
def outputs (x : Extraction) (blobs : List Bytes) : List Output :=
  blobs.zipIdx.flatMap fun (blob, number) => outputsOf x.options blob number

variable {x : Extraction} {blobs blobs' : List Bytes} {o o' : Output}

theorem mem_outputs_iff : o ∈ x.outputs blobs ↔
    ∃ number blob, blobs[number]? = some blob ∧ o ∈ outputsOf x.options blob number := by
  simp only [outputs, List.mem_flatMap, Prod.exists, List.mem_zipIdx_iff_getElem?]
  exact exists_comm

/-- Every output has a name of its own. -/
theorem outputs_suffix_inj (h : o ∈ x.outputs blobs) (h' : o' ∈ x.outputs blobs)
    (heq : o.suffix = o'.suffix) : o = o' := by
  obtain ⟨number, blob, hblob, h⟩ := mem_outputs_iff.1 h
  obtain ⟨number', blob', hblob', h'⟩ := mem_outputs_iff.1 h'
  obtain ⟨kind, hkind⟩ := exists_isSuffix h
  obtain ⟨kind', hkind'⟩ := exists_isSuffix h'
  obtain ⟨-, rfl, -⟩ := hkind.eq_of_append hkind' (congrArg ("" ++ ·) heq)
  cases hblob.symm.trans hblob'
  exact outputsOf_suffix_inj h h' heq

/-- No two files of a folder have outputs of one name. -/
theorem names_eq_of_withSuffix_eq {names names' : List String}
    (hnames : ∀ n ∈ names, Path.IsName n) (hnames' : ∀ n ∈ names', Path.IsName n)
    (h : o ∈ x.outputs blobs) (h' : o' ∈ x.outputs blobs')
    (heq : Path.withSuffix names o.suffix = Path.withSuffix names' o'.suffix) : names = names' := by
  obtain ⟨number, blob, -, h⟩ := mem_outputs_iff.1 h
  obtain ⟨number', blob', -, h'⟩ := mem_outputs_iff.1 h'
  obtain ⟨kind, hkind⟩ := exists_isSuffix h
  obtain ⟨kind', hkind'⟩ := exists_isSuffix h'
  have haround := congrArg List.dropLast heq
  have hlast := congrArg (List.getLastD · "") heq
  rw [Path.dropLast_withSuffix, Path.dropLast_withSuffix] at haround
  rw [Path.getLastD_withSuffix, Path.getLastD_withSuffix] at hlast
  exact Path.eq_of_getLastD_eq hnames hnames' haround (hkind.eq_of_append hkind' hlast).1

theorem two_lt_length_suffix (h : o ∈ x.outputs blobs) : 2 < o.suffix.length := by
  obtain ⟨number, blob, -, h⟩ := mem_outputs_iff.1 h
  obtain ⟨kind, hkind⟩ := exists_isSuffix h
  exact hkind.two_lt_length

end Extraction
end ShaderBytecode
