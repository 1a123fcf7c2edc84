import Mathlib.Data.List.Forall2
import ShaderBytecode.Proofs.Glsl.BlockLayout
import ShaderBytecode.Proofs.Glsl.SourceLanes
import ShaderBytecode.Proofs.Glsl.WordRange

/-!
# Reading constant buffers by the names of their variables

A row of a constant buffer is read component by component. Every component stands at a byte offset,
and where the buffer has a variable at that offset, the variable is named instead of the row.

    source_reads : each lane is the access for its own component, which lies in the buffer and in
                   the variable that is named

Components that come from one variable are written as one selection from it, others are put together
one by one; `eval_combine` says that the lanes are the same either way. Slots and rows are numbers
of 64 bits, but are looked up by their low words: the law is one about words, and
`not_readsAt_farRow` shows a row whose number is none.

What a buffer holds is not looked at. An access is an expression, and its value in some memory is
what the lanes are told by, so that nothing depends on where an implementation keeps the buffer.
-/

namespace ShaderBytecode
namespace Glsl

/-! ### Putting components together

A selection of components has one base and one number type, so the components must share both. A
single component is its own selection, whatever it is taken from. -/

namespace Access

section

variable {A : Arithmetic} {scope : Scope} {m : Memory}

/-- Selecting components at once gives them one by one. -/
theorem eval_components {base : Expr} {accesses : List Access}
    (h : ∀ a ∈ accesses, a.base none = base ∧ a.component.isSome) :
    (Expr.components base (accesses.filterMap (·.component))).eval A scope m
      = accesses.flatMap fun a => (a.expr none).eval A scope m := by
  induction accesses with
  | nil => rfl
  | cons a rest ih =>
    rw [List.forall_mem_cons] at h
    obtain ⟨⟨hbase, hcomponent⟩, hrest⟩ := h
    obtain ⟨component, hcomponent⟩ := Option.isSome_iff_exists.1 hcomponent
    have hone : a.expr none = .components base [component] := by
      rw [expr, hbase, hcomponent]
      rfl
    rw [List.filterMap_cons_some hcomponent, List.flatMap_cons, ← ih hrest, hone]
    simp only [Expr.eval, ← List.filterMap_append, List.singleton_append]

/-- Accesses that share a base are components of the same thing. -/
theorem base_eq_of_shares {a b : Access} {row : Option Expr} (h : a.shares b) :
    b.base row = a.base row ∧ b.type = a.type ∧ b.component.isSome := by
  simp only [shares, Bool.and_eq_true, beq_iff_eq] at h
  obtain ⟨⟨⟨hmember, helement⟩, htype⟩, hcomponent⟩ := h
  exact ⟨by simp only [base, hmember, helement], htype, hcomponent⟩

/-- A component that has been converted is kept when a value is made from it. -/
theorem construct_converted (hA : A.Lawful) (source target : NumberType) (w : UInt32) :
    ∃ s, A.converted source target w = [s] ∧ A.construct ⟨target, 1⟩ [[s]] = [s] := by
  unfold Arithmetic.converted
  by_cases htarget : target = .double
  · rw [if_pos htarget, htarget]
    exact hA.again .double (.ofWord source w)
  · rw [if_neg htarget]
    exact ⟨_, rfl, hA.keepsBits (.inl ⟨rfl, htarget⟩) w⟩

/-- Components one by one. -/
theorem eval_apart (hA : A.Lawful) {accesses : List Access} {type : NumberType}
    {w : Access → UInt32} (htype : ∀ a ∈ accesses, a.type ≠ .double)
    (h : ∀ a ∈ accesses, (a.expr none).eval A scope m = [.ofWord a.type (w a)]) :
    (Expr.construct ⟨type, accesses.length⟩
        (accesses.map fun a => (a.expr none).convert a.type type 1)).eval A scope m
      = accesses.flatMap fun a => A.converted a.type type (w a) := by
  have hflatten : (Expr.evalAll A scope m
      (accesses.map fun a => (a.expr none).convert a.type type 1)).flatten
        = accesses.flatMap fun a => A.converted a.type type (w a) := by
    rw [flatten_evalAll_map]
    refine List.flatMap_congr fun a ha => ?_
    have hone : ((a.expr none).convert a.type type [w a].length).eval A scope m = _ :=
      eval_convert hA type (htype a ha) (h a ha)
    exact hone.trans (List.flatMap_singleton ..)
  have hlength : (accesses.flatMap fun a => A.converted a.type type (w a)).length
      = accesses.length := by
    have hone (a : Access) : (A.converted a.type type (w a)).length = 1 := by
      obtain ⟨s, hs, -⟩ := construct_converted hA a.type type (w a)
      rw [hs]
      rfl
    simp [List.length_flatMap, hone]
  -- Every part has the type of the whole already, so it is kept.
  rw [Expr.eval, hA.construct (by rw [hflatten, hlength]), hflatten, List.flatMap_assoc]
  congr 1
  funext a
  obtain ⟨s, hs, hkept⟩ := construct_converted hA a.type type (w a)
  rw [hs, List.flatMap_singleton, hkept]

/-- Components that are selected at once. -/
theorem eval_together (hA : A.Lawful) {accesses : List Access} {e : Expr}
    {source type : NumberType} {w : Access → UInt32} (hsource : source ≠ .double)
    (htype : ∀ a ∈ accesses, a.type = source)
    (h : ∀ a ∈ accesses, (a.expr none).eval A scope m = [.ofWord a.type (w a)])
    (heval : e.eval A scope m = accesses.flatMap fun a => (a.expr none).eval A scope m) :
    (e.convert source type accesses.length).eval A scope m
      = accesses.flatMap fun a => A.converted a.type type (w a) := by
  have hwords : e.eval A scope m = (accesses.map w).map (Scalar.ofWord source) := by
    rw [heval, List.map_map, List.map_eq_flatMap]
    exact List.flatMap_congr fun a ha => by rw [h a ha, htype a ha]; rfl
  have hconvert := eval_convert hA type hsource hwords
  rw [List.length_map, List.flatMap_map] at hconvert
  rw [hconvert]
  exact List.flatMap_congr fun a ha => by rw [htype a ha]

/-- The lanes of components that are put together are the components, each converted by itself. -/
theorem eval_combine (hA : A.Lawful) {accesses : List Access} {type : NumberType}
    {w : Access → UInt32} (htype : ∀ a ∈ accesses, a.type ≠ .double)
    (h : ∀ a ∈ accesses, (a.expr none).eval A scope m = [.ofWord a.type (w a)]) :
    (combine accesses none type).eval A scope m
      = accesses.flatMap fun a => A.converted a.type type (w a) := by
  match accesses with
  | [] => exact eval_apart hA htype h
  | first :: rest =>
    unfold combine
    dsimp only
    split
    · next hjoined =>
      rw [Bool.or_eq_true, Bool.and_eq_true, List.all_eq_true, beq_iff_eq, List.length_cons,
        Nat.add_eq_right, List.length_eq_zero_iff] at hjoined
      have hfirst := htype first (by simp)
      rcases hjoined with ⟨hcomponent, hshares⟩ | rfl
      · have hbase : ∀ a ∈ first :: rest,
            a.base none = first.base none ∧ a.type = first.type ∧ a.component.isSome :=
          List.forall_mem_cons.2
            ⟨⟨rfl, rfl, hcomponent⟩, fun a ha => base_eq_of_shares (hshares a ha)⟩
        refine eval_together hA hfirst (fun a ha => (hbase a ha).2.1) h ?_
        rw [← eval_components fun a ha => ⟨(hbase a ha).1, (hbase a ha).2.2⟩]
        obtain ⟨component, hcomponent⟩ := Option.isSome_iff_exists.1 hcomponent
        rw [List.filterMap_cons_some hcomponent]
        rfl
      · -- A single component need not be one of several.
        have hone : [first].filterMap (·.component) = first.component.toList := by
          cases hcomponent : first.component <;> simp [hcomponent]
        refine eval_together hA hfirst (by simp) h ?_
        rw [hone, List.flatMap_singleton]
        rfl
    · exact eval_apart hA htype h

end

/-! ### Finding components

The access for a component is found by resolving its byte offset. All that is kept of it is which
variable it names and that the offset lies in it. -/

/-- An access is found for a byte offset of a buffer, within the buffer and within the variable that
it names. A variable has at least four bytes. -/
structure ReadsAt (buffer : ConstantBuffer) (offset : Nat) (a : Access) : Prop where
  resolved : Access.resolve buffer false offset = some a
  inBuffer : offset < buffer.size.toNat
  inVariable : ∃ v ∈ buffer.vars, a.member = identifier v.name ∧
    v.offset.toNat ≤ offset ∧ offset < v.offset.toNat + max v.size.toNat 4

/-- No variable is declared with doubles. -/
theorem memberType_ne_double (v : Variable) : memberType v ≠ .double := by
  unfold memberType
  split
  · nofun
  · assumption

/-- An access that is found lies in its variable. -/
theorem of_resolve_eq_some {buffer : ConstantBuffer} {offset : Nat} {a : Access}
    (h : Access.resolve buffer false offset = some a) :
    ReadsAt buffer offset a ∧ a.type ≠ .double := by
  have hresolved := h
  unfold Access.resolve at h
  split at h
  · cases h
  · next r hr =>
    obtain ⟨hmem, hle, -⟩ := of_resolve_eq_ok hr
    have hinBuffer : offset < buffer.size.toNat := by
      by_contra houtside
      rw [ConstantBuffer.resolve, if_neg houtside] at hr
      cases hr
    dsimp only at h
    split at h
    · cases h
    · next hend =>
      -- However the variable is declared, the access names it and has its number type.
      have hnamed : a.member = identifier r.found.name ∧ a.type = memberType r.found := by
        split at h
        · cases h; exact ⟨rfl, rfl⟩
        · cases h; exact ⟨rfl, rfl⟩
        · split at h <;> cases h <;> exact ⟨rfl, rfl⟩
        · cases h; exact ⟨rfl, rfl⟩
      exact ⟨⟨hresolved, hinBuffer, r.found, hmem, hnamed.1, hle, Nat.lt_of_not_le hend⟩,
        hnamed.2 ▸ memberType_ne_double r.found⟩

end Access

/-- Where each element of a list gives something, they do so in order. -/
theorem forall₂_of_mapM_eq_some {f : α → Option β} {R : α → β → Prop}
    (hR : ∀ a b, f a = some b → R a b) :
    ∀ {l : List α} {bs : List β}, l.mapM f = some bs → List.Forall₂ R l bs
  | [], bs, h => by
    cases h
    exact .nil
  | a :: l, bs, h => by
    rw [List.mapM_cons] at h
    obtain ⟨b, hb, h⟩ := Option.bind_eq_some_iff.1 h
    obtain ⟨rest, hrest, h⟩ := Option.bind_eq_some_iff.1 h
    cases h
    exact .cons (hR a b hb) (forall₂_of_mapM_eq_some hR hrest)

/-- Lists of one element, one after the other. -/
theorem forall₂_flatMap_singleton {f : α → List β} :
    ∀ {l : List α}, (∀ a ∈ l, ∃ b, f a = [b]) →
      List.Forall₂ (fun a b => f a = [b]) l (l.flatMap f)
  | [], _ => .nil
  | a :: l, h => by
    rw [List.forall_mem_cons] at h
    obtain ⟨b, hb⟩ := h.1
    rw [List.flatMap_cons, hb]
    exact .cons hb (forall₂_flatMap_singleton h.2)

/-- What holds of each pair holds of each second component. -/
theorem forall_mem_of_forall₂ {P : β → Prop} {l : List α} {bs : List β}
    (h : List.Forall₂ (fun _ b => P b) l bs) : ∀ b ∈ bs, P b := by
  induction h with
  | nil => simp
  | cons hb _ ih => exact List.forall_mem_cons.2 ⟨hb, ih⟩

/-- The accesses for the components of a row whose number is a word. -/
theorem readsAt_of_bufferAccesses {buffer : ConstantBuffer} {components : Components}
    {pick : Lane → Lane} {lanes : List Lane} {row : UInt64} {accesses : List Access}
    (hpick : components.Picks pick) (hrow : row.toNat < wordLimit)
    (h : bufferAccesses buffer components lanes row false = some accesses) :
    List.Forall₂ (fun lane a =>
        Access.ReadsAt buffer (16 * row.toNat + 4 * (pick lane).val) a ∧ a.type ≠ .double)
      lanes accesses := by
  refine forall₂_of_mapM_eq_some (fun lane a ha => ?_) h
  have hword : row.toUInt32.toNat = row.toNat := by
    rw [UInt64.toNat_toUInt32]
    exact Nat.mod_eq_of_lt hrow
  unfold bufferAccess? componentOffset? at ha
  simp only [hpick.2 lane, hword, Option.bind_eq_bind, Option.bind_some] at ha
  split at ha
  · cases ha
  · exact Access.of_resolve_eq_some ha

/-! ### Rows

A row is read by accesses if all its components are found, and left as a plain row otherwise. The
slots of plain rows are kept, which is how the two can be told apart. -/

/-- A row that is not read as a plain row is read by accesses. -/
theorem rowSource_of_rawSlots_eq_nil {ctx : Context} {slot : UInt32} {components : Components}
    {row : IndexPart} {base : Option Expr} {mask : LaneMask} {type : NumberType}
    (h : (rowSource ctx slot components row base mask type).rawSlots = []) :
    ∃ buffer accesses, ctx.bufferAt? slot = some buffer ∧
      bufferAccesses buffer components mask.lanes row.value base.isSome = some accesses ∧
      (rowSource ctx slot components row base mask type).value
        = Access.combine accesses base type := by
  unfold rowSource at h ⊢
  simp only [Traced.rawSlots_bind, Traced.value_bind] at h ⊢
  cases hfound : (ctx.bufferAt? slot).bind fun b =>
      bufferAccesses b components mask.lanes row.value base.isSome with
  | some accesses =>
    obtain ⟨buffer, hbuffer, haccesses⟩ := Option.bind_eq_some_iff.1 hfound
    exact ⟨buffer, accesses, hbuffer, haccesses, rfl⟩
  | none =>
    -- The slot would have been left behind.
    rw [hfound] at h
    simp only [Traced.rawSlots_bind, List.append_eq_nil_iff] at h
    obtain ⟨-, -, -, h⟩ := h
    split at h <;> cases h

/-- An operand with a fixed row is lowered to the row. -/
theorem source_of_constantBuffer (ctx : Context) {o : Operand} {slot row : Index}
    {rest : List Index} {mask : LaneMask} (hfile : o.file = .constantBuffer)
    (hindices : o.indices = slot :: row :: rest) (hbase : row.base = none) (hmask : mask ≠ 0)
    (type : NumberType) :
    o.source ctx mask type = do
      let e ← rowSource ctx slot.value.toUInt32 o.components (row.part ctx) none mask type
      return modify o.head.modifier e := by
  change o.head.file = _ at hfile
  rw [Operand.source_eq, hindices, sourceOf, unmodifiedSource, hfile]
  simp only [bufferSource, Index.part, hbase, LaneMask.orFirst_of_ne_zero hmask, List.map_cons,
    List.getElem?_cons_succ, List.getElem?_cons_zero, List.head?_cons, Option.map_some,
    Option.map_none, Option.getD_some, pure_bind]
  rfl

/-- **Constant buffers are read by the names of their variables.** Where a row is not read as a
plain row of the buffer, there is an access for each lane in turn: it is found at the byte offset of
the component that the lane selects, which lies in the buffer that is bound at the slot and in the
variable that is named. The lanes of the value are the words behind these accesses, each converted
by itself, whether they are selected at once or put together. Slot and row are words. -/
theorem source_reads {c : Container} {o : Operand} {slot row : Index} {rest : List Index}
    {pick : Lane → Lane} {mask : LaneMask} {type : NumberType} (hfile : o.file = .constantBuffer)
    (hpick : o.components.Picks pick) (hindices : o.indices = slot :: row :: rest)
    (hbase : row.base = none) (hslot : slot.value.toNat < wordLimit)
    (hrow : row.value.toNat < wordLimit) (hmask : mask ≠ 0)
    (hnamed : (o.source (contextOf c) mask type).rawSlots = []) :
    ∃ buffer accesses, c.resources.bind (·.bufferAt? slot.value.toNat) = some buffer ∧
      List.Forall₂ (fun lane a =>
          Access.ReadsAt buffer (16 * row.value.toNat + 4 * (pick lane).val) a)
        mask.lanes accesses ∧
      (o.source (contextOf c) mask type).value
        = modify o.head.modifier (Access.combine accesses none type) ∧
      ∀ (A : Arithmetic) (scope : Scope) (m : Memory) (w : Access → UInt32), A.Lawful →
        (∀ a ∈ accesses, (a.expr none).eval A scope m = [.ofWord a.type (w a)]) →
        List.Forall₂ (fun a s => A.converted a.type type (w a) = [s]) accesses
          ((Access.combine accesses none type).eval A scope m) := by
  -- the operand is lowered to its row, and the row is known by its slots
  have hsource := source_of_constantBuffer (contextOf c) hfile hindices hbase hmask type
  have hword : slot.value.toUInt32.toNat = slot.value.toNat := by
    rw [UInt64.toNat_toUInt32]
    exact Nat.mod_eq_of_lt hslot
  rw [hsource, Traced.rawSlots_bind, List.append_eq_nil_iff] at hnamed
  obtain ⟨buffer, accesses, hbuffer, haccesses, hvalue⟩ := rowSource_of_rawSlots_eq_nil hnamed.1
  have hreads := readsAt_of_bufferAccesses hpick hrow haccesses
  have htype : ∀ a ∈ accesses, a.type ≠ .double :=
    forall_mem_of_forall₂ (hreads.imp fun _ _ h => h.2)
  refine ⟨buffer, accesses, ?_, hreads.imp fun _ _ h => h.1, ?_, ?_⟩
  · rw [← hword]
    exact hbuffer
  · rw [hsource, Traced.value_bind, hvalue]
    rfl
  · intro A scope m w hA hwords
    rw [Access.eval_combine hA htype hwords]
    refine forall₂_flatMap_singleton fun a _ => ?_
    obtain ⟨s, hs, -⟩ := Access.construct_converted hA a.type type (w a)
    exact ⟨s, hs⟩

/-- The buffer is at slot 2. -/
def packedDefinitions : ResourceDefinitions :=
  ⟨5, 0, .pixel, 0, "", none, [packedBuffer],
    [⟨"Material", .constantBuffer, .ofCode 0, .ofViewCode 0, 0, 2, 1, 0⟩]⟩

/-- A container with a program or without one. -/
def packedContainer (program : Option Program) : Container :=
  .ofPayloads (.ofBytes #[]) [] (.resources packedDefinitions :: program.toList.map .program)

/-- The first row of the buffer at slot 2, its components turned round. -/
def packedOperand : Operand :=
  .mk ⟨0, .constantBuffer, .four (.swizzle .w .z .y .x), .none, .full, false⟩
    (.fixed .immediate32 2 (.fixed .immediate32 0 .nil)) none

/-- The variables of the row, and the words in their components: the bits of one, two and so on. -/
def packedScope : Scope := fun n => if n = .member "Gloss" then ⟨.float, 1⟩ else ⟨.float, 3⟩

def packedMemory : Memory := fun p =>
  if p.name = .member "Gloss" then 4 else .ofNat (1 + p.lane.val)

/-- The words of the variables, found through an access. -/
def packedWord (a : Access) : UInt32 :=
  if a.member = "Gloss" then 4 else if a.component = some .z then 3 else 2

/-- Three components of a row in which two variables stand, read as unsigned numbers. -/
theorem source_reads_packed :
    (packedOperand.source (contextOf (packedContainer none)) 0b0111 .uint).value.eval conversions
      packedScope packedMemory = [.uint 4, .uint 3, .uint 2] := by
  have hnamed : (packedOperand.source (contextOf (packedContainer none)) 0b0111 .uint).rawSlots
      = [] := by
    decide +kernel
  have hpick : packedOperand.components.Picks (perLane .w .z .y .x) := Components.picks_swizzle ..
  obtain ⟨buffer, accesses, hbuffer, hreads, hvalue, hlanes⟩ :=
    source_reads rfl hpick rfl rfl (by decide) (by decide) (by decide) hnamed
  obtain rfl : packedBuffer = buffer := Option.some.inj hbuffer
  have hmask : LaneMask.lanes 0b0111 = [.x, .y, .z] := by decide
  rw [hmask] at hreads
  -- three lanes are read, each by an access of its own
  match accesses, hreads with
  | [a, b, c], .cons ha (.cons hb (.cons hc .nil)) =>
    obtain rfl : ⟨"Gloss", none, none, .float⟩ = a := Option.some.inj ha.resolved
    obtain rfl : ⟨"Tint", none, some .z, .float⟩ = b := Option.some.inj hb.resolved
    obtain rfl : ⟨"Tint", none, some .y, .float⟩ = c := Option.some.inj hc.resolved
    have hscalars := hlanes conversions packedScope packedMemory packedWord lawful_conversions
      (by decide)
    have hmodifier : packedOperand.head.modifier = .none := rfl
    rw [hvalue, hmodifier, modify]
    revert hscalars
    generalize (Access.combine _ none .uint).eval conversions packedScope packedMemory = scalars
    -- the lanes that are read are the words in memory
    rintro (_ | ⟨hs, _ | ⟨ht, _ | ⟨hu, _ | _⟩⟩⟩)
    rw [← List.singleton_inj.1 hs, ← List.singleton_inj.1 ht, ← List.singleton_inj.1 hu]
    rfl

/-- A program that reads the row of the number `2 ^ 32` from the buffer at slot 2. -/
def farRow : Bytes :=
  #[64, 0, 0, 0, 10, 0, 0, 0, 54, 0, 0, 7, 242, 32, 16, 0, 0, 0, 0, 0, 70, 142, 32, 2, 2, 0, 0, 0,
    0, 0, 0, 0, 1, 0, 0, 0, 62, 0, 0, 1]

/-- An operand reads all of a row whose number is no word, and not as a plain row. -/
def readsFarRow (c : Container) (o : Operand) : Bool :=
  match o.file, o.components, o.indices with
  | .constantBuffer, .four (.swizzle _ _ _ _), [_, row] =>
    row.base.isNone && wordLimit ≤ row.value.toNat
      && (o.source (contextOf c) .all .float).rawSlots.isEmpty
  | _, _, _ => false

/-- A row may be found although its number is too large for any buffer: only the low word of the
number is looked at. -/
theorem not_readsAt_farRow :
    ¬ ∀ (payload : Bytes) (p : Program) (c : Container) (o : Operand) (slot row : Index)
        (rest : List Index) (pick : Lane → Lane) (mask : LaneMask) (type : NumberType),
      Program.decode payload = .ok p → c.program = some p → o ∈ p.operands →
      o.file = .constantBuffer → o.components.Picks pick → o.indices = slot :: row :: rest →
      row.base = none → mask ≠ 0 → (o.source (contextOf c) mask type).rawSlots = [] →
      ∃ buffer accesses, c.resources.bind (·.bufferAt? slot.value.toNat) = some buffer ∧
        List.Forall₂ (fun lane a =>
            Access.ReadsAt buffer (16 * row.value.toNat + 4 * (pick lane).val) a)
          mask.lanes accesses := by
  intro h
  have hfar : (Program.decode farRow).toOption.any (fun p =>
      p.operands.any (readsFarRow (packedContainer (some p)))) = true := by
    decide +kernel
  cases hdecode : Program.decode farRow with
  | error e =>
    rw [hdecode] at hfar
    cases hfar
  | ok p =>
    rw [hdecode] at hfar
    obtain ⟨o, ho, hreads⟩ := List.any_eq_true.1 hfar
    unfold readsFarRow at hreads
    split at hreads
    · next x y z w slot row hfile hcomponents hindices =>
      rw [Bool.and_eq_true, Bool.and_eq_true, Option.isNone_iff_eq_none, decide_eq_true_eq,
        List.isEmpty_iff] at hreads
      obtain ⟨⟨hbase, hlarge⟩, hnamed⟩ := hreads
      obtain ⟨buffer, accesses, -, haccesses⟩ := h farRow p (packedContainer (some p)) o slot row []
        _ .all .float hdecode rfl ho hfile (hcomponents ▸ Components.picks_swizzle x y z w) hindices
        hbase (by decide) hnamed
      have hlanes : LaneMask.all.lanes = [.x, .y, .z, .w] := by decide
      rw [hlanes] at haccesses
      -- The first component lies far behind the end of any buffer.
      cases haccesses with
      | cons hfirst _ =>
        have hin := hfirst.inBuffer
        have hsize := buffer.size.toNat_lt
        rw [wordLimit] at hlarge
        omega
    · cases hreads

end Glsl
end ShaderBytecode
