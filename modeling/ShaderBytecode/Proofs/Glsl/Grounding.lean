import ShaderBytecode.Glsl.Emit
import ShaderBytecode.Proofs.Glsl.BufferReads
import ShaderBytecode.Proofs.Glsl.Names

/-!
# Operations with grounded names

Lowering an operand or an operation never makes up a name. The statements of an operation that has a
destination all stay in `main` and declare nothing, and their names are grounded (`AllPlain`).

    Operand.yields_source    : (o.source ctx mask type).Yields raw (Expr.Grounded ctx raw)
    Glsl.yields_toDestination : what holds of the statements for each destination with a grounded
                                target holds of those for the one that an operand names
    Glsl.yields_textureLookup : a lookup is grounded if its call is, given a grounded sampler

The proofs follow lowering through its monad: `Yields` says what the value of a traced computation
is like, whenever the slots that are left behind on the way are among `raw`. So a name of a plain
row is grounded because of the trace, and every other one because of the context.
-/

namespace ShaderBytecode
namespace Glsl

/-! ### Operands

A register is named by its number, a row by members or by its slot, and a literal not at all. Only
rows need the context to be looked at. -/

section

variable {ctx : Context} {raw : UInt32 → Prop}

/-- The register within an index is lowered to an expression with grounded names. -/
def IndexPart.Grounded (ctx : Context) (raw : UInt32 → Prop) (i : IndexPart) : Prop :=
  ∀ base ∈ i.base, base.Yields raw (Expr.Grounded ctx raw)

/-- An index is an expression that its register gives. -/
theorem IndexPart.yields_expr {i : IndexPart} (hi : i.Grounded ctx raw) :
    i.expr.Yields raw (Expr.Grounded ctx raw) := by
  unfold IndexPart.expr
  split
  · exact Traced.yields_pure Expr.grounded_natural
  · next base hbase =>
    refine (hi base hbase).bind fun e he => Traced.yields_pure ?_
    split <;> simp [he]

theorem IndexPart.yields_exprOrZero {i : Option IndexPart} (hi : ∀ j ∈ i, j.Grounded ctx raw) :
    (exprOrZero i).Yields raw (Expr.Grounded ctx raw) := by
  cases i with
  | none => exact Traced.yields_pure Expr.grounded_natural
  | some i => exact yields_expr (hi i rfl)

/-- Registers are named by their numbers. -/
theorem yields_registerStorage {file : RegisterFile} {indices : List IndexPart}
    (hindices : ∀ i ∈ indices, i.Grounded ctx raw) :
    ∀ storage ∈ registerStorage ctx file indices,
      storage.Yields raw fun s => s.expr.Grounded ctx raw := by
  intro storage hstorage
  unfold registerStorage at hstorage
  split at hstorage
  case h_1 => cases hstorage -- no register
  case h_2 => -- input, of which there may be one for each vertex
    dsimp only at hstorage
    split at hstorage
    · next vertex _ =>
      cases hstorage
      -- an input of a vertex is named by the register within the index
      have hvertex : vertex.Grounded ctx raw := hindices vertex (by simp)
      exact (IndexPart.yields_expr hvertex).bind fun e he => Traced.yields_pure (by simp [he])
    · cases hstorage
      exact Traced.yields_pure (by simp)
  case h_4 => -- array of registers
    cases hstorage
    have hposition : (IndexPart.exprOrZero indices[1]?).Yields raw (Expr.Grounded ctx raw) :=
      IndexPart.yields_exprOrZero fun i hi => hindices i (List.mem_of_getElem? hi)
    exact hposition.bind fun e he => Traced.yields_pure (by simp [he])
  case h_5 => -- immediate buffer
    cases hstorage
    have hposition : (IndexPart.exprOrZero indices.head?).Yields raw (Expr.Grounded ctx raw) :=
      IndexPart.yields_exprOrZero fun i hi => hindices i (List.mem_of_mem_head? hi)
    exact hposition.bind fun e he => Traced.yields_pure (by simp [he])
  all_goals
    cases hstorage
    exact Traced.yields_pure (by simp)

/-- Literals name nothing. -/
theorem yields_literalSource (literals : Option Literals) (mask : LaneMask) (type : NumberType) :
    (literalSource literals mask type).Yields raw (Expr.Grounded ctx raw) := by
  unfold literalSource
  split
  · exact (Traced.yields_notice _).bind fun _ _ => Traced.yields_pure Expr.grounded_zeroAs
  · next literals =>
    have hlanes : ∀ e ∈ mask.orFirst.lanes.filterMap fun lane => Expr.literal? literals lane type,
        e.Grounded ctx raw := by
      -- a literal is written down
      intro e he
      obtain ⟨lane, -, he⟩ := List.mem_filterMap.1 he
      exact Expr.grounded_of_literal? he
    split
    · exact Traced.yields_pure Expr.grounded_zeroAs
    · next e heq => exact Traced.yields_pure (hlanes e (heq ▸ List.mem_cons_self))
    · exact Traced.yields_pure (Expr.grounded_construct.2 hlanes)

/-- A row is named by members of the buffer that is bound at the slot, or else the slot is left
behind. -/
theorem yields_rowSource (slot : UInt32) (components : Components) {row : IndexPart}
    (hrow : row.Grounded ctx raw) {base : Option Expr} (hbase : ∀ e ∈ base, e.Grounded ctx raw)
    (mask : LaneMask) (type : NumberType) :
    (rowSource ctx slot components row base mask type).Yields raw (Expr.Grounded ctx raw) := by
  unfold rowSource
  refine (Traced.yields_compute _).bind fun _ _ => (Traced.yields_compute _).bind fun _ _ => ?_
  split
  · next accesses hfound => -- by members
    obtain ⟨buffer, hbuffer, haccesses⟩ := Option.bind_eq_some_iff.1 hfound
    have hmember : ∀ a ∈ accesses, (Expr.name (.member a.member)).Grounded ctx raw := by
      refine forall_mem_of_forall₂ (forall₂_of_mapM_eq_some (fun lane a ha => ?_) haccesses)
      obtain ⟨⟨offset, within⟩, -, ha⟩ := Option.bind_eq_some_iff.1 ha
      obtain ⟨v, hv, hname⟩ := Access.exists_var_of_resolve ha
      exact (Expr.grounded_name rfl).2 ⟨slot, buffer, hbuffer, v, hv, hname⟩
    exact Traced.yields_pure (Access.grounded_combine hmember hbase)
  · -- by plain rows, whose slot has been left behind when they are named
    have hrows (e : Expr) (he : e.Grounded ctx raw) :
        (do
          Traced.rawSlot slot
          let e := (Expr.element (.name (.bufferRows slot)) e).select (components.selected mask)
          return e.convert .float type mask.lanes.length).Yields raw (Expr.Grounded ctx raw) :=
      (Traced.yields_rawSlot slot).bind fun _ hslot =>
        Traced.yields_pure (by simp [he, hslot])
    refine (IndexPart.yields_expr hrow).bind fun e he => ?_
    split
    · exact (Traced.yields_notice _).bind fun _ _ => hrows e he
    · exact hrows e he

theorem yields_bufferSource (components : Components) {indices : List IndexPart}
    (hindices : ∀ i ∈ indices, i.Grounded ctx raw) (mask : LaneMask) (type : NumberType) :
    (bufferSource ctx components indices mask type).Yields raw (Expr.Grounded ctx raw) := by
  unfold bufferSource
  dsimp only
  split
  · refine (Traced.yields_notice _).bind fun _ _ => (Traced.yields_rawSlot _).bind fun _ hslot => ?_
    exact Traced.yields_pure (by simp [hslot])
  · next row hrow =>
    have hrow : row.Grounded ctx raw := hindices row (List.mem_of_getElem? hrow)
    split
    · -- a row with a fixed number
      exact (Traced.yields_pure (P := fun base => base = none) rfl).bind fun base hbase =>
        yields_rowSource _ components hrow (by simp [hbase]) _ _
    · -- a row whose number is in a register
      next base hbase =>
      have he : (some <$> base).Yields raw fun base => ∀ e ∈ base, e.Grounded ctx raw :=
        (hrow base hbase).map fun e he => by simpa using he
      exact he.bind fun base hbase => yields_rowSource _ components hrow hbase _ _

theorem yields_unmodifiedSource (head : OperandHead) {indices : List IndexPart}
    (hindices : ∀ i ∈ indices, i.Grounded ctx raw) (literals : Option Literals) (mask : LaneMask)
    (type : NumberType) :
    ∀ value ∈ unmodifiedSource ctx head indices literals mask type,
      value.Yields raw (Expr.Grounded ctx raw) := by
  intro value hvalue
  unfold unmodifiedSource at hvalue
  split at hvalue
  · cases hvalue
    exact yields_literalSource _ _ _
  · cases hvalue
    exact yields_literalSource _ _ _
  · cases hvalue
    exact yields_bufferSource _ hindices _ _
  · obtain ⟨storage, hstorage, rfl⟩ := Option.map_eq_some_iff.1 hvalue
    exact (yields_registerStorage hindices storage hstorage).bind fun s hs =>
      Traced.yields_pure (by simp [hs])

theorem yields_sourceOf (head : OperandHead) {indices : List IndexPart}
    (hindices : ∀ i ∈ indices, i.Grounded ctx raw) (literals : Option Literals) (mask : LaneMask)
    (type : NumberType) :
    (sourceOf ctx head indices literals mask type).Yields raw (Expr.Grounded ctx raw) := by
  unfold sourceOf
  split
  · exact Traced.yields_pure Expr.grounded_zeroAs
  · next value hvalue =>
    exact (yields_unmodifiedSource head hindices literals mask type value hvalue).bind
      fun e he => Traced.yields_pure (grounded_modify.2 he)

end
end Glsl

open Glsl

mutual

/-- The names in a source are grounded, whatever the tree of the operand. -/
theorem Operand.yields_source {ctx : Context} {raw : UInt32 → Prop} :
    ∀ (o : Operand) (mask : LaneMask) (type : NumberType),
      (o.source ctx mask type).Yields raw (Expr.Grounded ctx raw)
  | .mk head indices literals, mask, type => by
    rw [Operand.source]
    exact yields_sourceOf head indices.grounded_parts literals mask type

theorem Indices.grounded_parts {ctx : Context} {raw : UInt32 → Prop} :
    ∀ (indices : Indices), ∀ i ∈ indices.parts ctx, i.Grounded ctx raw
  | .nil, _, hi => by
    rw [Indices.parts] at hi
    cases hi
  | .fixed _ value rest, i, hi => by
    rw [Indices.parts] at hi
    rcases List.mem_cons.1 hi with rfl | hi
    · rintro base ⟨⟩
    · exact rest.grounded_parts i hi
  | .relative _ value base rest, i, hi => by
    rw [Indices.parts] at hi
    rcases List.mem_cons.1 hi with rfl | hi
    · rintro _ ⟨⟩
      exact base.yields_source _ _
    · exact rest.grounded_parts i hi

end

namespace Glsl

/-! ### Plain statements

The statements of operations are assignments and comments, with a product in two halves as the only
block. What holds of each plain statement is proved once and is used by all operations. -/

section

variable {ctx : Context} {raw : UInt32 → Prop}

/-- Statements with grounded names that neither declare anything nor leave `main`. -/
def AllPlain (ctx : Context) (raw : UInt32 → Prop) (statements : List Statement) : Prop :=
  ∀ t ∈ statements, t.Plain ctx raw

theorem allPlain_nil : AllPlain ctx raw [] := by
  simp [AllPlain]

theorem allPlain_unmapped (head : OperationHead) : AllPlain ctx raw (unmapped head) :=
  List.forall_mem_singleton.2 trivial

theorem allPlain_controlFlowComment (head : OperationHead) (operands : List Operand) :
    AllPlain ctx raw [controlFlowComment head operands] :=
  List.forall_mem_singleton.2 trivial

theorem AllPlain.append {xs ys : List Statement} (hxs : AllPlain ctx raw xs)
    (hys : AllPlain ctx raw ys) : AllPlain ctx raw (xs ++ ys) :=
  List.forall_mem_append.2 ⟨hxs, hys⟩

theorem AllPlain.filterMap_eq_nil {f : Statement → Option β} {statements : List Statement}
    (h : AllPlain ctx raw statements) (hf : ∀ t, t.Plain ctx raw → f t = none) :
    statements.filterMap f = [] :=
  List.filterMap_eq_nil_iff.2 fun t ht => hf t (h t ht)

theorem allPlain_assignment {d : Destination} {head : OperationHead} {value : Expr}
    {type : NumberType} (hd : d.target.Grounded ctx raw) (hvalue : value.Grounded ctx raw) :
    AllPlain ctx raw [assignment d head value type] := by
  have hsaturated : (Destination.saturated head.saturate type value).Grounded ctx raw := by
    unfold Destination.saturated
    split <;> simp [hvalue]
  exact List.forall_mem_singleton.2 ⟨hd, Expr.grounded_convert.2 hsaturated⟩

theorem yields_destination (dst : Operand) :
    (destination ctx dst).Yields raw fun d? => ∀ d ∈ d?, d.target.Grounded ctx raw := by
  obtain ⟨head, indices, literals⟩ := dst
  unfold destination
  dsimp only
  split
  · exact Traced.yields_pure (by simp)
  · next storage hstorage =>
    exact (yields_registerStorage indices.grounded_parts storage hstorage).bind fun s hs =>
      Traced.yields_pure (by simp [hs])

/-- A destination is assigned to only if there is one. -/
theorem yields_toDestination (dst : Operand) {statements : Destination → Traced (List Statement)}
    (hstatements : ∀ d, d.target.Grounded ctx raw → (statements d).Yields raw (AllPlain ctx raw)) :
    (toDestination ctx dst statements).Yields raw (AllPlain ctx raw) := by
  unfold toDestination
  refine (yields_destination dst).bind fun d? hd => ?_
  split
  · exact Traced.yields_pure allPlain_nil
  · next d => exact hstatements d (hd d rfl)

/-! ### Values of operations

A value is made from the values of the sources, without any name of its own. The lemmas say so for
each form of an operation. -/

theorem grounded_of_unaryValue? {opcode : Opcode} {lanes : Nat} {a value : Expr}
    (ha : a.Grounded ctx raw) (h : unaryValue? opcode lanes a = some value) :
    value.Grounded ctx raw := by
  unfold unaryValue? at h
  dsimp only at h
  split at h <;> cases h <;> simp [ha]

theorem grounded_binaryValue {form : BinaryForm} {lanes : Nat} {a b : Expr}
    (ha : a.Grounded ctx raw) (hb : b.Grounded ctx raw) :
    (form.value lanes a b).Grounded ctx raw := by
  cases form with
  | dot count =>
    simp only [BinaryForm.value]
    split <;> simp [ha, hb]
  | function f => simp [BinaryForm.value, ha, hb]
  | compare op f =>
    simp only [BinaryForm.value]
    split <;> simp [ha, hb]
  | operator op => simp [BinaryForm.value, ha, hb]

theorem grounded_chooseValue {lanes : Nat} {condition yes no : Expr}
    (hcondition : condition.Grounded ctx raw) (hyes : yes.Grounded ctx raw)
    (hno : no.Grounded ctx raw) : (chooseValue lanes condition yes no).Grounded ctx raw := by
  unfold chooseValue
  split <;> simp [hcondition, hyes, hno]

theorem grounded_extractValue {type : NumberType} {width offset value : Expr}
    (hwidth : width.Grounded ctx raw) (hoffset : offset.Grounded ctx raw)
    (hvalue : value.Grounded ctx raw) :
    (extractValue type width offset value).Grounded ctx raw := by
  unfold extractValue
  dsimp only
  split <;> simp [hwidth, hoffset, hvalue]

/-! ### Lookups

A lookup names a sampler, which is that of the texture that was found. The coordinates, levels and
offsets besides it are sources or numbers. -/

theorem grounded_of_texelOffset? {head : OperationHead} {dimension : Dimension} {e : Expr}
    (h : texelOffset? head dimension = some e) : e.Grounded ctx raw := by
  obtain ⟨⟨u, v, w⟩, -, h⟩ := Option.bind_eq_some_iff.1 h
  dsimp only at h
  split at h
  · cases h
  · split at h <;> cases h <;> simp

theorem grounded_of_lookup? {resource : Operand} {texture : Texture} {sampler : Expr}
    (h : lookup? ctx resource = some (texture, sampler)) : sampler.Grounded ctx raw := by
  obtain ⟨register, -, h⟩ := Option.bind_eq_some_iff.1 h
  obtain ⟨t, ht, h⟩ := Option.bind_eq_some_iff.1 h
  cases h
  exact grounded_samplerAt (List.mem_of_find?_eq_some ht) _

theorem yields_sampleCall (head : OperationHead) (address : Operand) (sampling : Sampling)
    (texture : Texture) {sampler : Expr} (hsampler : sampler.Grounded ctx raw) :
    (sampleCall ctx head address sampling texture sampler).Yields raw (Expr.Grounded ctx raw) := by
  -- a constant offset is made of numbers
  have hoffset (o : Expr) (ho : texelOffset? head texture.dimension = some o) :
      o.Grounded ctx raw := grounded_of_texelOffset? ho
  unfold sampleCall
  refine (address.yields_source _ _).bind fun coordinates hcoordinates => ?_
  dsimp only
  cases sampling with
  | plain =>
    refine Traced.yields_pure ?_
    split
    · simp [hsampler, hcoordinates]
    · next o ho => simp [hsampler, hcoordinates, hoffset o ho]
  | lod operand =>
    refine (operand.yields_source _ _).bind fun lod hlod => Traced.yields_pure ?_
    split
    · simp [hsampler, hcoordinates, hlod]
    · next o ho => simp [hsampler, hcoordinates, hlod, hoffset o ho]
  | bias operand =>
    refine (operand.yields_source _ _).bind fun bias hbias => Traced.yields_pure ?_
    split
    · simp [hsampler, hcoordinates, hbias]
    · next o ho => simp [hsampler, hcoordinates, hbias, hoffset o ho]
  | gradient x y =>
    refine (x.yields_source _ _).bind fun dx hdx => (y.yields_source _ _).bind fun dy hdy =>
      Traced.yields_pure ?_
    split
    · simp [hsampler, hcoordinates, hdx, hdy]
    · next o ho => simp [hsampler, hcoordinates, hdx, hdy, hoffset o ho]

theorem yields_fetchCall (head : OperationHead) (address : Operand) (sample : Option Operand)
    (texture : Texture) {sampler : Expr} (hsampler : sampler.Grounded ctx raw) :
    (fetchCall ctx head address sample texture sampler).Yields raw (Expr.Grounded ctx raw) := by
  unfold fetchCall
  refine (address.yields_source _ _).bind fun coordinates hcoordinates => ?_
  -- the number of the sample is that of an operand, or zero
  have hsamples (number : Traced Expr) (hnumber : number.Yields raw (Expr.Grounded ctx raw)) :
      (number >>= fun n => pure (.call .texelFetch [sampler, coordinates, n])).Yields raw
        (Expr.Grounded ctx raw) :=
    hnumber.bind fun n hn => Traced.yields_pure (by simp [hsampler, hcoordinates, hn])
  split
  · exact Traced.yields_pure (by simp [hsampler, hcoordinates])
  · exact Traced.yields_pure (by simp [hsampler, hcoordinates])
  case h_3 | h_4 =>
    dsimp only
    split
    · exact hsamples _ (Operand.yields_source _ _ _)
    · exact hsamples _ (Traced.yields_pure (by simp))
  · refine (address.yields_source _ _).bind fun lod hlod => Traced.yields_pure ?_
    split
    · simp [hsampler, hcoordinates, hlod]
    · next o ho => simp [hsampler, hcoordinates, hlod, grounded_of_texelOffset? ho]

theorem grounded_sizeValue {head : OperationHead} {texture : Texture} {size levels : Expr}
    (hsize : size.Grounded ctx raw) (hlevels : levels.Grounded ctx raw) :
    (sizeValue head texture size levels).2.Grounded ctx raw := by
  unfold sizeValue
  dsimp only
  repeat' split -- by what the query asks for and by the shape of the texture
  all_goals simp [hsize, hlevels]

theorem yields_sizeQuery (head : OperationHead) (level : Operand) (texture : Texture)
    {sampler : Expr} (hsampler : sampler.Grounded ctx raw) :
    (sizeQuery ctx head level texture sampler).Yields raw fun v => v.2.Grounded ctx raw := by
  have hwhole : (sizeValue head texture (.call .textureSize [sampler]) (.natural 1)).2.Grounded
      ctx raw := grounded_sizeValue (by simp [hsampler]) (by simp)
  unfold sizeQuery
  split
  case h_5 => -- a texture that has levels
    refine (level.yields_source _ _).bind fun lod hlod => Traced.yields_pure ?_
    exact grounded_sizeValue (by simp [hsampler, hlod]) (by simp [hsampler])
  all_goals exact Traced.yields_pure hwhole

theorem yields_textureLookup (head : OperationHead) (dst resource : Operand)
    {call : Texture → Expr → Traced (NumberType × Expr)}
    (hcall : ∀ texture (sampler : Expr), sampler.Grounded ctx raw →
      (call texture sampler).Yields raw fun v => v.2.Grounded ctx raw) :
    (textureLookup ctx head dst resource call).Yields raw (AllPlain ctx raw) := by
  refine yields_toDestination dst fun d hd => (Traced.yields_compute _).bind fun _ _ => ?_
  split
  · exact Traced.yields_pure (allPlain_unmapped head)
  · next texture sampler hfound =>
    refine (hcall texture sampler (grounded_of_lookup? hfound)).bind fun v hv => ?_
    exact Traced.yields_pure (allPlain_assignment hd (Expr.grounded_select.2 hv))

theorem yields_sample (head : OperationHead) (dst address resource : Operand)
    (sampling : Sampling) :
    (sample ctx head dst address resource sampling).Yields raw (AllPlain ctx raw) :=
  yields_textureLookup head dst resource fun texture _ hsampler =>
    (yields_sampleCall head address sampling texture hsampler).bind fun _ he =>
      Traced.yields_pure he

theorem yields_fetch (head : OperationHead) (dst address resource : Operand)
    (number : Option Operand) :
    (fetch ctx head dst address resource number).Yields raw (AllPlain ctx raw) :=
  yields_textureLookup head dst resource fun texture _ hsampler =>
    (yields_fetchCall head address number texture hsampler).bind fun _ he =>
      Traced.yields_pure he

/-! ### Operations with a destination

What is left is to put the parts together, operation by operation. -/

theorem yields_unary (head : OperationHead) (dst src : Operand) :
    (unary ctx head dst src).Yields raw (AllPlain ctx raw) := by
  refine yields_toDestination dst fun d hd => (src.yields_source _ _).bind fun a ha => ?_
  split
  · exact Traced.yields_pure (allPlain_unmapped head)
  · next value hvalue =>
    exact Traced.yields_pure (allPlain_assignment hd (grounded_of_unaryValue? ha hvalue))

theorem yields_sincos (head : OperationHead) (sinDst cosDst value : Operand) :
    (sincos ctx head sinDst cosDst value).Yields raw (AllPlain ctx raw) := by
  -- The sources are lowered again for the second destination, with its own lanes.
  have hassign (dst : Operand) (f : Function) : (toDestination ctx dst fun d => do
      let a ← value.source ctx d.mask .float
      return [assignment d head (.call f [a]) .float]).Yields raw (AllPlain ctx raw) :=
    yields_toDestination dst fun d hd => (value.yields_source _ _).bind fun a ha =>
      Traced.yields_pure (allPlain_assignment hd (by simp [ha]))
  exact (hassign sinDst .sin).bind fun _ hsin => (hassign cosDst .cos).bind fun _ hcos =>
    Traced.yields_pure (hsin.append hcos)

/-- The remainder is lowered like the quotient, with its own operator. -/
theorem yields_divide (head : OperationHead) (quotientDst remainderDst a b : Operand) :
    (divide ctx head quotientDst remainderDst a b).Yields raw (AllPlain ctx raw) := by
  have hassign (dst : Operand) (operator : BinaryOperator) : (toDestination ctx dst fun d => do
      let x ← a.source ctx d.mask .uint
      let y ← b.source ctx d.mask .uint
      return [assignment d head (.binary operator x y) .uint]).Yields raw (AllPlain ctx raw) :=
    yields_toDestination dst fun d hd => (a.yields_source _ _).bind fun x hx =>
      (b.yields_source _ _).bind fun y hy =>
        Traced.yields_pure (allPlain_assignment hd (by simp [hx, hy]))
  exact (hassign quotientDst .divide).bind fun _ hquotient =>
    (hassign remainderDst .remainder).bind fun _ hremainder =>
      Traced.yields_pure (hquotient.append hremainder)

theorem yields_multiplyWide (head : OperationHead) (highDst lowDst a b : Operand) :
    (multiplyWide ctx head highDst lowDst a b).Yields raw (AllPlain ctx raw) := by
  -- The high half is named by the value alone, and only within the block of the product.
  have hhalf (type : NumberType) (d : Destination) :
      ∀ n ∈ ((Expr.name .high).convert type d.type d.width).names, n.Grounded ctx raw := by
    rw [Expr.names_convert]
    exact List.forall_mem_singleton.2 trivial
  unfold multiplyWide
  refine Traced.Yields.bind (P := AllPlain ctx raw) ?_ fun _ hhigh =>
    Traced.Yields.bind (P := AllPlain ctx raw) ?_ fun _ hlow =>
      Traced.yields_pure (hhigh.append hlow)
  · refine yields_toDestination highDst fun d hd => (a.yields_source _ _).bind fun x hx =>
      (b.yields_source _ _).bind fun y hy => Traced.yields_pure ?_
    exact List.forall_mem_singleton.2 ⟨hx, hy, hd, hhalf _ d⟩
  · exact yields_toDestination lowDst fun d hd => (a.yields_source _ _).bind fun x hx =>
      (b.yields_source _ _).bind fun y hy =>
        Traced.yields_pure (allPlain_assignment hd (by simp [hx, hy]))

theorem yields_binary (head : OperationHead) (dst a b : Operand) :
    (binary ctx head dst a b).Yields raw (AllPlain ctx raw) := by
  unfold binary
  split
  · exact yields_sincos head dst a b
  · exact yields_fetch head dst a b none
  · exact yields_textureLookup head dst b fun texture _ hsampler =>
      yields_sizeQuery head a texture hsampler
  · refine yields_toDestination dst fun d hd => ?_
    split
    · exact Traced.yields_pure (allPlain_unmapped head)
    · exact (a.yields_source _ _).bind fun x hx => (b.yields_source _ _).bind fun y hy =>
        Traced.yields_pure (allPlain_assignment hd (grounded_binaryValue hx hy))

theorem yields_extractLanes (opcode : Opcode) (mask : LaneMask) (width offset value : Operand) :
    (extractLanes ctx opcode mask width offset value).Yields raw (Expr.Grounded ctx raw) := by
  -- each lane reads its operands by itself
  have hlane (lane : Lane) : (do
      let w ← width.source ctx (.single lane) opcode.sourceType
      let o ← offset.source ctx (.single lane) opcode.sourceType
      let v ← value.source ctx (.single lane) opcode.sourceType
      return extractValue opcode.resultType w o v : Traced Expr).Yields raw
        (Expr.Grounded ctx raw) :=
    (width.yields_source _ _).bind fun w hw => (offset.yields_source _ _).bind fun o ho =>
      (value.yields_source _ _).bind fun v hv =>
        Traced.yields_pure (grounded_extractValue hw ho hv)
  unfold extractLanes
  refine (Traced.yields_mapM fun lane _ => hlane lane).bind fun lanes hlanes => ?_
  split
  · next lane => exact Traced.yields_pure (hlanes lane List.mem_cons_self)
  · exact Traced.yields_pure (Expr.grounded_construct.2 hlanes)

theorem yields_ternaryValue (opcode : Opcode) (form : TernaryForm) (mask : LaneMask)
    (a b c : Operand) :
    (ternaryValue ctx opcode form mask a b c).Yields raw (Expr.Grounded ctx raw) := by
  cases form with
  | extractBits => exact yields_extractLanes opcode mask a b c
  | fusedMultiplyAdd =>
    exact (a.yields_source _ _).bind fun x hx => (b.yields_source _ _).bind fun y hy =>
      (c.yields_source _ _).bind fun z hz => Traced.yields_pure (by simp [hx, hy, hz])
  | multiplyAdd =>
    exact (a.yields_source _ _).bind fun x hx => (b.yields_source _ _).bind fun y hy =>
      (c.yields_source _ _).bind fun z hz => Traced.yields_pure (by simp [hx, hy, hz])
  | choose =>
    exact (a.yields_source _ _).bind fun x hx => (b.yields_source _ _).bind fun y hy =>
      (c.yields_source _ _).bind fun z hz => Traced.yields_pure (grounded_chooseValue hx hy hz)

theorem yields_ternary (head : OperationHead) (dst a b c : Operand) :
    (ternary ctx head dst a b c).Yields raw (AllPlain ctx raw) := by
  unfold ternary
  split
  · exact yields_divide head dst a b c
  · exact yields_multiplyWide head dst a b c
  · exact yields_multiplyWide head dst a b c
  · exact yields_sample head dst a b .plain
  · exact yields_fetch head dst a b (some c)
  · refine yields_toDestination dst fun d hd => ?_
    split
    · exact Traced.yields_pure (allPlain_unmapped head)
    · next form _ =>
      exact (yields_ternaryValue _ form d.mask a b c).bind fun value hvalue =>
        Traced.yields_pure (allPlain_assignment hd hvalue)

theorem yields_condition (head : OperationHead) (o : Operand) :
    (condition ctx head o).Yields raw (Expr.Grounded ctx raw) := by
  unfold condition
  refine (o.yields_source _ _).bind fun e he => Traced.yields_pure ?_
  split <;> simp [he]

end
end Glsl

end ShaderBytecode
