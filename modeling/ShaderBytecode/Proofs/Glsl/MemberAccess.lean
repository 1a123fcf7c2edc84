import ShaderBytecode.Proofs.Glsl.BlockLayout
import ShaderBytecode.Proofs.Glsl.SourceLanes
import ShaderBytecode.Proofs.Glsl.WordRange

/-!
# What an access names

An access is found for a byte offset of a constant buffer. The variable that begins at or before the
offset decides about it, and the distance from the beginning of the variable gives the element and
the component: whole rows count elements, the words of the last row components.

    resolve_inside    : the element that is named exists, and the offset stands in the word that is
                        named ↔ it is not in padding
    resolve_static_eq : an element that is named by a run-time row `j` and `s` rows behind it
                        is the element `j + s` that is named `j` rows further on

What the variable takes is compared with the offset at its end only. Between the elements of an
array are words that belong to none of them, and an access for such a word names the element in
front of it (`not_inside_betweenElements`).

Offsets are resolved before (`ResourceDefinitions.resolve`), which finds a variable, a row and a
component. Here it is told what becomes of these by the shape of the member that the variable is
declared as.
-/

namespace ShaderBytecode
namespace Glsl

/-! ### Elements and components of variables

Where an element is named by different expressions, only their values count. -/

section

variable {A : Arithmetic} {scope : Scope} {m : Memory}

theorem eval_select_congr {e e' : Expr} {lanes : List Lane}
    (h : e.eval A scope m = e'.eval A scope m) :
    (e.select lanes).eval A scope m = (e'.select lanes).eval A scope m := by
  unfold Expr.select
  split
  · exact h
  · rw [Expr.eval, Expr.eval, h]

theorem eval_element_congr {n : Name} {position position' : Expr}
    (h : (position.eval A scope m).index = (position'.eval A scope m).index) :
    (Expr.element (.name n) position).eval A scope m
      = (Expr.element (.name n) position').eval A scope m := by
  rw [Expr.eval, Expr.eval, h]

theorem index_natural {n : Nat} (h : n < wordLimit) :
    ((Expr.natural n).eval A scope m).index = n := by
  change (UInt32.ofInt n).toNat = n
  rw [toNat_ofInt]
  exact Nat.mod_eq_of_lt h

end

/-! ### How an access is found

The shape of a member decides which parts of a place are named. A scalar has neither element nor
component, a vector no element, and an array of scalars no component. -/

namespace Access

/-- The access to a place within a variable, whatever the size of the variable. -/
def ofPlace? (dynamic : Bool) (r : ResolvedOffset) : Option Access :=
  let access (element : Option Nat) (component : Option Lane) : Access :=
    ⟨identifier r.found.name, element, component, memberType r.found⟩
  match memberShape r.found with
  | .scalar => if dynamic then none else some (access none none)
  | .vector _ => if dynamic then none else some (access none (some (.ofNat r.component)))
  | .array columns _ =>
    some (access (some r.row) (if columns = 1 then none else some (.ofNat r.component)))
  | .rows _ => some (access (some r.row) (some (.ofNat r.component)))

variable {buffer : ConstantBuffer} {offset : Nat} {dynamic : Bool}

theorem resolve_eq {r : ResolvedOffset} (h : buffer.resolve offset = .ok r) :
    resolve buffer dynamic offset =
      if r.found.offset.toNat + max r.found.size.toNat 4 ≤ offset then none
      else ofPlace? dynamic r := by
  simp only [resolve, h, ofPlace?]
  refine if_congr Iff.rfl rfl ?_
  cases memberShape r.found with
  | scalar | vector _ | rows _ => rfl
  | array columns _ => dsimp only; split <;> rfl

/-- An access is found for a place of a variable that reaches as far as the offset. -/
theorem resolve_eq_some_iff {a : Access} :
    resolve buffer dynamic offset = some a ↔
      ∃ r, buffer.resolve offset = .ok r ∧
        offset < r.found.offset.toNat + max r.found.size.toNat 4 ∧ ofPlace? dynamic r = some a := by
  constructor
  · intro h
    -- an error finds no access, and a place finds one if it is not behind the variable
    cases hr : buffer.resolve offset with
    | error e =>
      rw [resolve, hr] at h
      cases h
    | ok r =>
      rw [resolve_eq hr] at h
      split at h
      · cases h
      · next hend => exact ⟨r, rfl, Nat.lt_of_not_le hend, h⟩
  · rintro ⟨r, hr, hend, h⟩
    rw [resolve_eq hr, if_neg (Nat.not_le.2 hend), h]

theorem member_of_ofPlace? {r : ResolvedOffset} {a : Access} (h : ofPlace? dynamic r = some a) :
    a.member = identifier r.found.name := by
  unfold ofPlace? at h
  split at h
  · split at h <;> cases h; rfl
  · split at h <;> cases h; rfl
  · cases h; rfl
  · cases h; rfl

/-- What a run-time row can be added to has elements, of which the row of the place is one. A fixed
row names another element for another row of the place, and all else alike. -/
theorem of_ofPlace?_dynamic {r r' : ResolvedOffset} {a : Access} (h : ofPlace? true r = some a)
    (hfound : r'.found = r.found) (hcomponent : r'.component = r.component) :
    a.element = some r.row ∧ ofPlace? false r' = some { a with element := some r'.row } := by
  unfold ofPlace? at h ⊢
  rw [hfound, hcomponent]
  cases hshape : memberShape r.found with
  | scalar | vector _ =>
    rw [hshape] at h
    cases h
  | array _ _ | rows _ =>
    rw [hshape] at h
    cases h
    exact ⟨rfl, rfl⟩

section

variable {A : Arithmetic} {scope : Scope} {m : Memory}

/-- A run-time row in front of an element leads to the element as many rows behind it. -/
theorem eval_expr_dynamic (hA : A.Lawful) {a : Access} {s distance : Nat} {base : Expr}
    {w : UInt32} (ha : a.element = some s) (hbase : base.eval A scope m = [.int w])
    (hw : w.toNat = distance) (hsum : distance + s < wordLimit) :
    (a.expr (some base)).eval A scope m
      = ({ a with element := some (distance + s) }.expr none).eval A scope m := by
  refine eval_select_congr ?_
  simp only [Access.base, ha]
  refine eval_element_congr ?_
  rw [index_natural hsum]
  split
  · -- a row of zero adds nothing, so the sum is not written down
    next hzero =>
    rw [hbase, hzero, ← hw]
    rfl
  · have hadd : (Expr.binary .add base (.natural s)).eval A scope m = [.int (w + .ofInt s)] := by
      rw [Expr.eval, hbase]
      exact hA.add w (.ofInt s)
    rw [hadd]
    change (w + .ofInt s).toNat = distance + s
    rw [UInt32.toNat_add, toNat_ofInt, hw]
    rw [wordLimit] at hsum
    omega

end

end Access

/-- Where an offset stands within the variable that is found for it. -/
theorem place_of_resolve {buffer : ConstantBuffer} {offset : Nat} {r : ResolvedOffset}
    (h : buffer.resolve offset = .ok r) :
    offset < buffer.size.toNat ∧ r.found.offset.toNat ≤ offset ∧
      r.row = (offset - r.found.offset.toNat) / 16 ∧
      r.component = (offset - r.found.offset.toNat) % 16 / 4 := by
  obtain ⟨hin, -, hrow, hcomponent⟩ := ResourceDefinitions.resolve_eq_ok_iff.1 h
  exact ⟨hin, (of_resolve_eq_ok h).2.1, hrow, hcomponent⟩

/-! ### Rows that are added at run time

Two rows of one buffer are compared at the same component, so their offsets differ by whole rows.
The variable must be the same, or the elements belong to different arrays. -/

/-- **Fixed and run-time rows agree.** Let a run-time row be added to a row of a buffer, and let an
access be found for a component. It names an element by the row, or by the row and a fixed number
that is added to it. Where the same variable is found for the component of a fixed row that is
further on, the access there names, for the same component and type, the element that the run-time
row leads to when it is as large as the distance; and both have the same value then. An access is
missing there only if the variable ends before. -/
theorem resolve_static_eq {buffer : ConstantBuffer} {row distance component : Nat} {a : Access}
    {r r' : ResolvedOffset}
    (ha : Access.resolve buffer true (16 * row + 4 * component) = some a)
    (hr : buffer.resolve (16 * row + 4 * component) = .ok r)
    (hr' : buffer.resolve (16 * (row + distance) + 4 * component) = .ok r')
    (hsame : r'.found = r.found) :
    ∃ s b, (∀ base, a.base (some base) = .element (.name (.member a.member))
        (if s = 0 then base else .binary .add base (.natural s)))
      ∧ b.base none = .element (.name (.member a.member)) (.natural (distance + s))
      ∧ b.component = a.component ∧ b.type = a.type
      ∧ Access.resolve buffer false (16 * (row + distance) + 4 * component) =
          (if r.found.offset.toNat + max r.found.size.toNat 4
              ≤ 16 * (row + distance) + 4 * component then none else some b)
      ∧ ∀ (A : Arithmetic) (scope : Scope) (m : Memory) (base : Expr) (w : UInt32), A.Lawful →
          base.eval A scope m = [.int w] → w.toNat = distance →
          (a.expr (some base)).eval A scope m = (b.expr none).eval A scope m := by
  obtain ⟨hin, hle, hrow, hcomponent⟩ := place_of_resolve hr
  obtain ⟨hin', -, hrow', hcomponent'⟩ := place_of_resolve hr'
  rw [hsame] at hrow' hcomponent'
  -- whole rows further on, so the component is the same
  have hfurther : 16 * (row + distance) + 4 * component - r.found.offset.toNat
      = 16 * row + 4 * component - r.found.offset.toNat + distance * 16 := by omega
  rw [hfurther, Nat.add_mul_div_right _ _ (by decide), ← hrow] at hrow'
  rw [hfurther, Nat.add_mul_mod_self_right, ← hcomponent] at hcomponent'
  obtain ⟨r₀, hr₀, -, hplace⟩ := Access.resolve_eq_some_iff.1 ha
  cases hr.symm.trans hr₀
  obtain ⟨helement, hfixed⟩ := Access.of_ofPlace?_dynamic hplace hsame hcomponent'
  rw [hrow', Nat.add_comm] at hfixed
  refine ⟨r.row, { a with element := some (distance + r.row) }, fun base => ?_, rfl, rfl, rfl, ?_,
    ?_⟩
  · simp only [Access.base, helement]
  · rw [Access.resolve_eq hr', hsame, hfixed]
  · intro A scope m base w hA hbase hw
    refine Access.eval_expr_dynamic hA helement hbase hw ?_
    have := buffer.size.toNat_lt
    rw [wordLimit]
    omega

/-- An array that begins in the middle of a row. -/
def shiftedBuffer : ConstantBuffer where
  name := "Curve"
  vars := [floatVariable "Start" 0 4 1 0, floatVariable "Weights" 20 36 1 3]
  size := 64
  flags := 0
  kind := .constantBuffer

/-- A run-time row behind the second element leads to the third when it is one. -/
theorem resolve_static_eq_shifted :
    Access.resolve shiftedBuffer true 36 = some ⟨"Weights", some 1, none, .float⟩ ∧
      Access.resolve shiftedBuffer false 52 = some ⟨"Weights", some 2, none, .float⟩ := by
  have hdynamic : Access.resolve shiftedBuffer true (16 * 2 + 4 * 1)
      = some ⟨"Weights", some 1, none, .float⟩ := rfl
  have hplace : shiftedBuffer.resolve (16 * 2 + 4 * 1)
      = .ok ⟨floatVariable "Weights" 20 36 1 3, 1, 0⟩ := rfl
  have hfurther : shiftedBuffer.resolve (16 * (2 + 1) + 4 * 1)
      = .ok ⟨floatVariable "Weights" 20 36 1 3, 2, 0⟩ := rfl
  obtain ⟨s, b, hrow, hfixed, hcomponent, htype, hresolve, -⟩ :=
    resolve_static_eq hdynamic hplace hfurther rfl
  refine ⟨hdynamic, hresolve.trans ?_⟩
  -- the fixed number is the row that the access with the run-time row names
  have hs : s = 1 := by
    have h := hrow (.natural 0)
    split at h
    · cases h
    · cases h
      rfl
  subst hs
  obtain ⟨member, element, component, type⟩ := b
  cases element with
  | none => cases hfixed
  | some n =>
    cases hfixed
    cases hcomponent
    cases htype
    rfl

/-! ### Words within a member

What an access names is put beside what the declaration says there is. The words between the
elements of an array are not declared, and the access cannot tell them from those that are. -/

namespace MemberShape

/-- The columns of an element, or of the member if it is no array. -/
def columns : MemberShape → Nat
  | scalar => 1
  | vector columns => columns
  | array columns _ => columns
  | rows _ => 4

/-- The number of elements of an array. -/
def length? : MemberShape → Option Nat
  | scalar | vector _ => none
  | array _ length => some length
  | rows count => some count

end MemberShape

/-- A variable takes as many bytes as its columns do, and an array a row for each element but the
last. A vector has up to four columns. What is declared by plain rows may have any size. -/
def IsPacked (v : Variable) : Prop :=
  match memberShape v with
  | .scalar => v.size.toNat = 4
  | .vector columns => columns ≤ 4 ∧ v.size.toNat = 4 * columns
  | .array columns length => columns ≤ 4 ∧ v.size.toNat = 16 * (length - 1) + 4 * columns
  | .rows _ => True

instance (v : Variable) : Decidable (IsPacked v) := by
  unfold IsPacked
  split <;> infer_instance

/-- An offset stands in the word that an access names: in its component, which is a column of the
variable, of its element, which the variable has. -/
structure Access.Inside (a : Access) (v : Variable) (offset : Nat) : Prop where
  element : ∀ n ∈ a.element, ∃ length ∈ (memberShape v).length?, n < length
  component : ∀ lane ∈ a.component, lane.val < (memberShape v).columns
  first_le : v.offset.toNat + 16 * a.element.getD 0 + 4 * (a.component.getD .x).val ≤ offset
  lt_last : offset < v.offset.toNat + 16 * a.element.getD 0 + 4 * (a.component.getD .x).val + 4

/-- An offset stands in a row of an array, behind the columns of the element. -/
def InPadding (v : Variable) (offset : Nat) : Prop :=
  ∃ columns length, memberShape v = .array columns length ∧
    4 * columns ≤ (offset - v.offset.toNat) % 16

theorem inPadding_iff_of_array {v : Variable} {columns length offset : Nat}
    (h : memberShape v = .array columns length) :
    InPadding v offset ↔ 4 * columns ≤ (offset - v.offset.toNat) % 16 := by
  constructor
  · rintro ⟨columns', length', h', hle⟩
    cases h.symm.trans h'
    exact hle
  · exact fun hle => ⟨columns, length, h, hle⟩

theorem not_inPadding {v : Variable} {shape : MemberShape} {offset : Nat}
    (hshape : memberShape v = shape) (h : ∀ columns length, shape ≠ .array columns length) :
    ¬ InPadding v offset :=
  fun ⟨columns, length, harray, _⟩ => h columns length (hshape.symm.trans harray)

/-- Every member has a column, and every array an element. -/
theorem one_le_of_memberShape (v : Variable) :
    1 ≤ (memberShape v).columns ∧ ∀ length ∈ (memberShape v).length?, 1 ≤ length := by
  unfold memberShape
  dsimp only
  split
  · split
    · split
      · simp [MemberShape.columns, MemberShape.length?]
      · exact ⟨Nat.le_max_right _ 1, nofun⟩
    · next helements =>
      have hpos : v.type.shape.elements.toNat ≠ 0 := fun h => helements (UInt16.toNat_inj.1 h)
      simp only [MemberShape.columns, MemberShape.length?, Option.mem_some_iff, forall_eq']
      omega
  · simp only [MemberShape.columns, MemberShape.length?, Option.mem_some_iff, forall_eq']
    omega

theorem count_of_rows {v : Variable} {count : Nat} (h : memberShape v = .rows count) :
    count = max ((v.size.toNat + 15) / 16) 1 := by
  unfold memberShape at h
  dsimp only at h
  split at h
  · split at h
    · split at h <;> cases h
    · cases h
  · cases h
    rfl

/-! The shapes are gone through once. An array is the only one in which an offset can be in padding.
-/

section

variable {r : ResolvedOffset} {offset : Nat} {a : Access}
  (hle : r.found.offset.toNat ≤ offset)
  (hend : offset < r.found.offset.toNat + max r.found.size.toNat 4)
  (hrow : r.row = (offset - r.found.offset.toNat) / 16)
  (hcomponent : r.component = (offset - r.found.offset.toNat) % 16 / 4)
  (hpacked : IsPacked r.found)

include hle hend hrow hpacked in
/-- The element that is named by a row exists. -/
theorem element_lt_length (hplace : Access.ofPlace? false r = some a) :
    ∀ n ∈ a.element, ∃ length ∈ (memberShape r.found).length?, n < length := by
  obtain ⟨-, hlength⟩ := one_le_of_memberShape r.found
  unfold IsPacked at hpacked
  unfold Access.ofPlace? at hplace
  cases hshape : memberShape r.found with
  | scalar | vector _ =>
    rw [hshape] at hplace
    cases hplace
    nofun
  -- an element of the array that the member is
  | array columns length =>
    rw [hshape] at hplace hlength hpacked
    cases hplace
    rintro n ⟨⟩
    have := hlength length rfl
    exact ⟨length, rfl, by dsimp only at hpacked; omega⟩
  -- a row of the matrix that the member is
  | rows count =>
    have := count_of_rows hshape
    rw [hshape] at hplace
    cases hplace
    rintro n ⟨⟩
    exact ⟨count, rfl, by omega⟩

include hle hrow hcomponent in
/-- The row and the component of a place are those of the word at the offset. -/
theorem inside_of_component
    (helement : ∀ n ∈ a.element, ∃ length ∈ (memberShape r.found).length?, n < length)
    (hrowOf : a.element.getD 0 = r.row) (hlane : a.component = some (.ofNat r.component))
    (hlt : r.component < (memberShape r.found).columns) : a.Inside r.found offset := by
  -- a component is one of four
  have hval : (Lane.ofNat r.component).val = r.component := Nat.mod_eq_of_lt (by omega)
  refine ⟨helement, fun lane h => ?_, ?_, ?_⟩
  · cases hlane.symm.trans h
    rwa [hval]
  all_goals
    rw [hrowOf, hlane, Option.getD_some, hval]
    omega

include hle hend hrow hcomponent hpacked in
/-- The word that is named is the one at the offset, unless the offset is in padding. -/
theorem inside_iff (hplace : Access.ofPlace? false r = some a) :
    a.Inside r.found offset ↔ ¬ InPadding r.found offset := by
  -- the element is there in all cases
  have helement := element_lt_length hle hend hrow hpacked hplace
  have hof := inside_of_component hle hrow hcomponent helement
  have hval : (Lane.ofNat r.component).val = r.component := Nat.mod_eq_of_lt (by omega)
  obtain ⟨hcolumns, -⟩ := one_le_of_memberShape r.found
  unfold IsPacked at hpacked
  unfold Access.ofPlace? at hplace
  cases hshape : memberShape r.found with
  | scalar =>
    rw [hshape] at hplace hpacked
    cases hplace
    dsimp only at hpacked
    refine iff_of_true ⟨helement, nofun, hle, ?_⟩ (not_inPadding hshape nofun)
    change offset < r.found.offset.toNat + 0 + 0 + 4
    omega
  | vector columns =>
    rw [hshape] at hplace hpacked hcolumns hof
    cases hplace
    dsimp only at hpacked
    change 1 ≤ columns at hcolumns
    refine iff_of_true (hof ?_ rfl ?_) (not_inPadding hshape nofun)
    · change 0 = r.row
      omega
    · change r.component < columns
      omega
  | array columns length =>
    rw [inPadding_iff_of_array hshape, Nat.not_le]
    rw [hshape] at hplace hof
    cases hplace
    by_cases hone : columns = 1
    · -- no component is named, so the first word of the element is
      subst hone
      refine ⟨fun h => ?_, fun h => ⟨helement, nofun, ?_, ?_⟩⟩
      · have hlt : offset < r.found.offset.toNat + 16 * r.row + 0 + 4 := h.lt_last
        omega
      · change r.found.offset.toNat + 16 * r.row + 0 ≤ offset
        omega
      · change offset < r.found.offset.toNat + 16 * r.row + 0 + 4
        omega
    · rw [if_neg hone] at hof ⊢
      refine ⟨fun h => ?_, fun h => hof rfl rfl ?_⟩
      · have hlt := h.component _ rfl
        rw [hval, hshape] at hlt
        change r.component < columns at hlt
        omega
      · change r.component < columns
        omega
  | rows count =>
    rw [hshape] at hplace hof
    cases hplace
    refine iff_of_true (hof rfl rfl ?_) (not_inPadding hshape nofun)
    change r.component < 4
    omega

end

/-- **Where an access is inside of the member it names.** In a buffer of packed variables an access
by a fixed row names an element that the variable has. The offset stands in the word that is named,
whose component is one of the declared columns, exactly if it does not stand in the padding between
two elements of an array. -/
theorem resolve_inside {buffer : ConstantBuffer} {offset : Nat} {a : Access}
    (hpacked : ∀ v ∈ buffer.vars, IsPacked v)
    (h : Access.resolve buffer false offset = some a) :
    ∃ r, buffer.resolve offset = .ok r ∧ a.member = identifier r.found.name ∧
      (∀ n ∈ a.element, ∃ length ∈ (memberShape r.found).length?, n < length) ∧
      (a.Inside r.found offset ↔ ¬ InPadding r.found offset) := by
  obtain ⟨r, hr, hend, hplace⟩ := Access.resolve_eq_some_iff.1 h
  obtain ⟨-, hle, hrow, hcomponent⟩ := place_of_resolve hr
  have hpacked := hpacked _ (of_resolve_eq_ok hr).1
  exact ⟨r, hr, Access.member_of_ofPlace? hplace, element_lt_length hle hend hrow hpacked hplace,
    inside_iff hle hend hrow hcomponent hpacked hplace⟩

/-- The second element of the array begins a row, and its word is read there. -/
theorem resolve_inside_packedBuffer :
    Access.resolve packedBuffer false 32 = some ⟨"Weights", some 1, none, .float⟩ ∧
      Access.Inside ⟨"Weights", some 1, none, .float⟩ (floatVariable "Weights" 16 36 1 3) 32 := by
  have haccess : Access.resolve packedBuffer false 32
      = some ⟨"Weights", some 1, none, .float⟩ := rfl
  obtain ⟨r, hr, -, -, hinside⟩ := resolve_inside (by decide) haccess
  cases hr
  refine ⟨haccess, hinside.2 ?_⟩
  rw [inPadding_iff_of_array rfl]
  decide

/-- An offset between two elements of an array is in no word of the member that is named. -/
theorem not_inside_betweenElements :
    ¬ ∀ (buffer : ConstantBuffer) (offset : Nat) (a : Access) (r : ResolvedOffset),
      (∀ v ∈ buffer.vars, IsPacked v) → 4 ∣ offset → buffer.resolve offset = .ok r →
        Access.resolve buffer false offset = some a → a.Inside r.found offset := by
  intro h
  have hinside : Access.Inside ⟨"Weights", some 0, none, .float⟩
      (floatVariable "Weights" 16 36 1 3) 20 :=
    h packedBuffer 20 _ ⟨floatVariable "Weights" 16 36 1 3, 0, 1⟩ (by decide) (by decide) rfl rfl
  exact absurd hinside.lt_last (by decide)

end Glsl
end ShaderBytecode
