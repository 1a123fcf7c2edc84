import Mathlib.Data.List.Forall2
import ShaderBytecode.Proofs.Glsl.SourceLanes

/-!
# Written lanes

An operation with a destination becomes an assignment to a register, and one with two destinations
two of them. A mask of four lanes says which components of the register are written.

    Statement.frame : running a statement changes nothing but the lanes it assigns to
    written_lanes   : for each destination that is a register there is one statement, which assigns
                      to exactly the lanes of its mask, if there are any

A mask without lanes is no selection at all, so that the whole register is assigned to:
`not_written_lanes` shows such a destination.
-/

namespace ShaderBytecode

open Glsl

/-- The variable of a register, or the element that it is of an array. -/
def Operand.register (ctx : Context) (o : Operand) : Option Target :=
  (registerStorage ctx o.file (o.indices.map (Index.part ctx))).bind fun s =>
    s.value.expr.target?

namespace Glsl

/-! ### What statements assign to

What is assigned to is read off the text of the target: a variable, the position of an element if it
is an array, and the lanes that are selected. Running an assignment evaluates the position once, so
all places that it writes to are in one element. -/

/-- What a statement assigns to, if it assigns to anything. -/
def Statement.target? : Statement → Option Target
  | .assign a => a.target.target?
  | .wideProduct _ _ _ _ high => high.target.target?
  | _ => none

section

variable (A : Arithmetic) (scope : Scope) (m : Memory)

/-- The places of some lanes of a target are all in one element of it. -/
theorem exists_places_eq {t : Target} {lanes : List Lane} (h : t.lanes = some lanes) :
    ∃ element, t.places A scope m = lanes.map fun lane => ⟨t.name, element, lane⟩ := by
  -- the element is what the position evaluates to, whichever the lane
  obtain ⟨n, position, _⟩ := t
  subst h
  exact ⟨_, rfl⟩

/-- An assignment replaces words only in the places of its target. -/
theorem exists_of_mem_updates {a : Assignment} {t : Target} (ht : a.target.target? = some t)
    {lanes : List Lane} (h : t.lanes = some lanes) :
    ∃ element, ∀ p ∈ (a.updates A scope m).map Prod.fst,
      ∃ lane ∈ lanes, p = ⟨t.name, element, lane⟩ := by
  obtain ⟨element, hplaces⟩ := exists_places_eq A scope m h
  refine ⟨element, ?_⟩
  intro p hp
  -- words are paired with places, and a pair's place is one of them
  obtain ⟨⟨place, word⟩, hmem, rfl⟩ := List.mem_map.1 hp
  simp only [Assignment.updates, ht, Option.toList_some, List.flatMap_cons, List.flatMap_nil,
    List.append_nil, hplaces] at hmem
  obtain ⟨lane, hlane, rfl⟩ := List.mem_map.1 (List.of_mem_zip hmem).1
  exact ⟨lane, hlane, rfl⟩

/-- A statement that assigns to something goes on to the next one. -/
theorem Statement.execute_of_target? {s : Statement} {t : Target} (ht : s.target? = some t) :
    s.execute A scope m = .running (m.update (s.updates A scope m)) := by
  cases s with
  | assign | wideProduct => rfl
  | _ => cases ht

/-- Running a statement changes nothing but the lanes that it assigns to. -/
theorem Statement.frame {s : Statement} {t : Target} (ht : s.target? = some t) {lanes : List Lane}
    (h : t.lanes = some lanes) :
    ∃ element, ∀ p, m.update (s.updates A scope m) p ≠ m p →
      ∃ lane ∈ lanes, p = ⟨t.name, element, lane⟩ := by
  have hupdates : ∃ element, ∀ p ∈ (s.updates A scope m).map Prod.fst,
      ∃ lane ∈ lanes, p = ⟨t.name, element, lane⟩ := by
    cases s with
    | assign a => exact exists_of_mem_updates A scope m ht h
    | wideProduct type f left right high => exact exists_of_mem_updates A _ _ ht h
    | _ => cases ht
  obtain ⟨element, hplaces⟩ := hupdates
  refine ⟨element, ?_⟩
  intro p hp
  apply hplaces
  by_contra hmem
  exact hp (Memory.update_apply_of_not_mem hmem)

end

/-- A statement assigns to exactly these lanes of a register, and running it changes nothing else,
neither in other registers nor in other elements if the register is an array. -/
structure Statement.AssignsLanes (s : Statement) (register : Target) (lanes : List Lane) :
    Prop where
  target : s.target? = some { register with lanes := some lanes }
  frame : ∀ A scope m, ∃ m' element, s.execute A scope m = .running m' ∧
    ∀ p, m' p ≠ m p → ∃ lane ∈ lanes, p = ⟨register.name, element, lane⟩

theorem Statement.assignsLanes {s : Statement} {register : Target} {lanes : List Lane}
    (h : s.target? = some { register with lanes := some lanes }) :
    s.AssignsLanes register lanes where
  target := h
  frame A scope m := by
    obtain ⟨element, hframe⟩ := Statement.frame A scope m h rfl
    exact ⟨_, element, execute_of_target? A scope m h, hframe⟩

/-! ### Destinations

A destination is lowered to the register, with the lanes of the mask selected behind it. Whether
there is a register at all depends on the operand alone, and so does the mask; the arithmetic of the
operation comes in only behind the equality sign. -/

/-- The destinations of an operation. -/
def destinations (head : OperationHead) (operands : List Operand) : List Operand :=
  match OperandRoles.ofList operands with
  | .unary dst _ => [dst]
  | .binary dst a _ => if head.opcode = .sincos then [dst, a] else [dst]
  | .trinary dst a _ _ => if head.opcode ∈ [.udiv, .imul, .umul] then [dst, a] else [dst]
  | .generic operands =>
    match head.opcode, operands with
    | .sampleL, [dst, _, _, _, _] | .sampleB, [dst, _, _, _, _]
    | .sampleD, [dst, _, _, _, _, _] => [dst]
    | _, _ => []

/-- A statement assigns to a destination. If this has a mask of some lanes, these are assigned to;
otherwise it is the whole register. -/
def WritesTo (ctx : Context) (dst : Operand) (s : Statement) : Prop :=
  ∀ mask, dst.components = .four (.mask mask) →
    ∃ register ∈ dst.register ctx,
      (mask ≠ 0 → s.AssignsLanes register mask.lanes) ∧ (mask = 0 → s.target? = some register)

/-- The statements for some destinations: one for each that is a register, in their order. -/
def WriteTo (ctx : Context) (dsts : List Operand) (statements : List Statement) : Prop :=
  List.Forall₂ (WritesTo ctx) (dsts.filter fun dst => !dst.isNull) statements

section

variable {ctx : Context}

theorem registerStorage_eq_none_iff {file : RegisterFile} {indices : List IndexPart} :
    registerStorage ctx file indices = none ↔ file = .null := by
  unfold registerStorage
  split
  case h_1 => simp
  case h_2 => -- input, of which there may be one for each vertex
    dsimp only
    split <;> simp
  all_goals simp_all

/-- A register is a variable or an element of one, with all its components. -/
theorem exists_target?_of_registerStorage {file : RegisterFile} {indices : List IndexPart}
    {storage : Traced Storage} (h : registerStorage ctx file indices = some storage) :
    ∃ register, storage.value.expr.target? = some register ∧ register.lanes = none ∧
      ∀ identifier, register.name ≠ .sampler identifier := by
  unfold registerStorage at h
  -- every file but that of the null register gives a variable or an element of one
  split at h
  case h_1 => cases h
  case h_2 => -- input, of which there may be one for each vertex
    dsimp only at h
    split at h <;> cases h <;> exact ⟨_, rfl, rfl, nofun⟩
  all_goals
    cases h
    exact ⟨_, rfl, rfl, nofun⟩

/-- Selecting components of a register. -/
theorem target?_select {e : Expr} {register : Target} (h : e.target? = some register)
    (hwhole : register.lanes = none) (lanes : List Lane) :
    (e.select lanes).target?
      = some { register with lanes := if lanes.isEmpty then none else some lanes } := by
  unfold Expr.target? at h
  split at h <;> cases h
  case h_3 | h_4 => cases hwhole -- a selection already
  all_goals
    unfold Expr.select
    split <;> rfl

/-- A mask selects its own lanes. -/
theorem selected_mask : ∀ mask : LaneMask,
    (Components.four (.mask mask)).selected .all = mask.lanes := by decide

theorem isEmpty_lanes : ∀ mask : LaneMask, mask.lanes.isEmpty = decide (mask = 0) := by decide

theorem value_destination (dst : Operand) :
    (destination ctx dst).value
      = (registerStorage ctx dst.file (dst.indices.map (Index.part ctx))).map fun storage =>
          ⟨storage.value.expr.select (dst.components.selected .all), storage.value.type,
            dst.components.writeMask⟩ := by
  obtain ⟨head, indices, literals⟩ := dst
  have hparts : (Operand.mk head indices literals).indices.map (Index.part ctx)
      = indices.parts ctx := (Indices.parts_eq ctx indices).symm
  rw [hparts]
  change (destination ctx _).value = (registerStorage ctx head.file _).map _
  unfold destination
  dsimp only
  split
  · next hstorage => rw [hstorage]; rfl
  · next storage hstorage => rw [hstorage]; rfl

theorem value_destination_eq_none_iff {dst : Operand} :
    (destination ctx dst).value = none ↔ dst.isNull = true := by
  rw [value_destination, Option.map_eq_none_iff, registerStorage_eq_none_iff, Operand.isNull,
    beq_iff_eq]

/-- What assigns to the target of a destination assigns to the lanes of its mask. -/
theorem writesTo_of_target?_eq {dst : Operand} {d : Destination} {s : Statement}
    (hd : (destination ctx dst).value = some d) (hs : s.target? = d.target.target?) :
    WritesTo ctx dst s := by
  intro mask hmask
  rw [value_destination] at hd
  obtain ⟨storage, hstorage, rfl⟩ := Option.map_eq_some_iff.1 hd
  obtain ⟨register, hregister, hwhole, -⟩ := exists_target?_of_registerStorage hstorage
  rw [hmask, selected_mask, target?_select hregister hwhole, isEmpty_lanes] at hs
  -- the register, a mask with some lanes, and an empty mask
  refine ⟨register, ?_, fun hne => ?_, fun heq => ?_⟩
  · rw [Option.mem_def, Operand.register, hstorage]
    exact hregister
  · rw [decide_eq_false hne] at hs
    exact Statement.assignsLanes hs
  · rw [decide_eq_true heq] at hs
    obtain ⟨n, position, selection⟩ := register
    subst hwhole
    exact hs

/-- The statements for a destination: one that assigns to it, unless the operation has no form. -/
def ForTarget (d : Destination) (statements : List Statement) : Prop :=
  (∃ opcode, statements = [.unmapped opcode]) ∨
    ∃ s, statements = [s] ∧ s.target? = d.target.target?

theorem writeTo_toDestination {dst : Operand} {statements : Destination → Traced (List Statement)}
    (h : ∀ d, ForTarget d (statements d).value)
    (hmapped : ∀ opcode, .unmapped opcode ∉ (toDestination ctx dst statements).value) :
    WriteTo ctx [dst] (toDestination ctx dst statements).value := by
  unfold toDestination at hmapped ⊢
  rw [Traced.value_bind] at hmapped ⊢
  cases hd : (destination ctx dst).value with
  | none =>
    rw [WriteTo, List.filter_cons_of_neg (by simp [value_destination_eq_none_iff.1 hd])]
    exact .nil
  | some d =>
    -- it has a destination, so it is not the null register
    have hnull : dst.isNull = false := by
      by_contra hnull
      rw [Bool.not_eq_false, ← @value_destination_eq_none_iff ctx, hd] at hnull
      cases hnull
    simp only [hd] at hmapped
    rw [WriteTo, List.filter_cons_of_pos (by simp [hnull])]
    rcases h d with ⟨opcode, hs⟩ | ⟨s, hs, htarget⟩
    · exact absurd (hs ▸ List.mem_cons_self) (hmapped opcode)
    · dsimp only
      rw [hs]
      exact .cons (writesTo_of_target?_eq hd htarget) .nil

theorem WriteTo.append {dsts dsts' : List Operand} {ss ss' : List Statement}
    (h : WriteTo ctx dsts ss) (h' : WriteTo ctx dsts' ss') :
    WriteTo ctx (dsts ++ dsts') (ss ++ ss') := by
  rw [WriteTo, List.filter_append]
  exact List.rel_append h h'

/-- The statements for two destinations, one after the other. -/
theorem writeTo_both {dst dst' : Operand} {f f' : Destination → Traced (List Statement)}
    (h : ∀ d, ForTarget d (f d).value) (h' : ∀ d, ForTarget d (f' d).value)
    (hmapped : ∀ opcode, .unmapped opcode ∉
      (toDestination ctx dst f).value ++ (toDestination ctx dst' f').value) :
    WriteTo ctx [dst, dst']
      ((toDestination ctx dst f).value ++ (toDestination ctx dst' f').value) :=
  (writeTo_toDestination h fun opcode hmem =>
    hmapped opcode (List.mem_append_left _ hmem)).append
  (writeTo_toDestination h' fun opcode hmem =>
    hmapped opcode (List.mem_append_right _ hmem))

theorem forTarget_assignment (d : Destination) (head : OperationHead) (value : Expr)
    (type : NumberType) : ForTarget d [assignment d head value type] :=
  .inr ⟨_, rfl, rfl⟩

theorem forTarget_unmapped (d : Destination) (head : OperationHead) :
    ForTarget d (unmapped head) :=
  .inl ⟨head.opcode, rfl⟩

/-! ### Operations

Operations differ in how many destinations they have and in what they assign; that they assign to
the target of the destination is the same for all. So each form asks for `ForTarget` only. -/

theorem writeTo_unary {head : OperationHead} {dst src : Operand}
    (hmapped : ∀ opcode, .unmapped opcode ∉ (unary ctx head dst src).value) :
    WriteTo ctx [dst] (unary ctx head dst src).value := by
  refine writeTo_toDestination (fun d => ?_) hmapped
  rw [Traced.value_bind]
  split
  · exact forTarget_unmapped d head
  · exact forTarget_assignment d head _ _

theorem writeTo_textureLookup {head : OperationHead} {dst resource : Operand}
    {call : Texture → Expr → Traced (NumberType × Expr)}
    (hmapped : ∀ opcode, .unmapped opcode ∉ (textureLookup ctx head dst resource call).value) :
    WriteTo ctx [dst] (textureLookup ctx head dst resource call).value := by
  refine writeTo_toDestination (fun d => ?_) hmapped
  rw [Traced.value_bind]
  split
  · exact forTarget_unmapped d head
  · exact forTarget_assignment d head _ _

theorem writeTo_binary {head : OperationHead} {dst a b : Operand}
    (hmapped : ∀ opcode, .unmapped opcode ∉ (binary ctx head dst a b).value) :
    WriteTo ctx (if head.opcode = .sincos then [dst, a] else [dst])
      (binary ctx head dst a b).value := by
  unfold binary at hmapped ⊢
  split at hmapped
  · -- the second operand is a destination as well
    next hop =>
    rw [if_pos hop]
    exact writeTo_both (fun d => forTarget_assignment d head _ _)
      (fun d => forTarget_assignment d head _ _) hmapped
  · -- texture lookups have one destination
    next hop =>
    rw [if_neg (by simp [hop])]
    exact writeTo_textureLookup hmapped
  · next hop =>
    rw [if_neg (by simp [hop])]
    exact writeTo_textureLookup hmapped
  · next hsincos _ _ =>
    rw [if_neg hsincos]
    refine writeTo_toDestination (fun d => ?_) hmapped
    split
    · exact forTarget_unmapped d head
    · exact forTarget_assignment d head _ _

theorem writeTo_ternary {head : OperationHead} {dst a b c : Operand}
    (hmapped : ∀ opcode, .unmapped opcode ∉ (ternary ctx head dst a b c).value) :
    WriteTo ctx (if head.opcode ∈ [.udiv, .imul, .umul] then [dst, a] else [dst])
      (ternary ctx head dst a b c).value := by
  -- both products with a high half, signed and unsigned
  have hwide (hmapped : ∀ opcode, .unmapped opcode ∉ (multiplyWide ctx head dst a b c).value) :
      WriteTo ctx [dst, a] (multiplyWide ctx head dst a b c).value :=
    writeTo_both (fun d => .inr ⟨_, rfl, rfl⟩) (fun d => forTarget_assignment d head _ _) hmapped
  unfold ternary at hmapped ⊢
  split at hmapped
  · next hop =>
    rw [if_pos (by simp [hop])]
    exact writeTo_both (fun d => forTarget_assignment d head _ _)
      (fun d => forTarget_assignment d head _ _) hmapped
  · next hop =>
    rw [if_pos (by simp [hop])]
    exact hwide hmapped
  · next hop =>
    rw [if_pos (by simp [hop])]
    exact hwide hmapped
  · next hop =>
    rw [if_neg (by simp [hop])]
    exact writeTo_textureLookup hmapped
  · next hop =>
    rw [if_neg (by simp [hop])]
    exact writeTo_textureLookup hmapped
  · next hdiv himul humul _ _ =>
    rw [if_neg (by simpa using ⟨hdiv, himul, humul⟩)]
    refine writeTo_toDestination (fun d => ?_) hmapped
    split
    · exact forTarget_unmapped d head
    · exact forTarget_assignment d head _ _

/-- **Written lanes.** An operation that has a form in GLSL is lowered to one statement for each of
its destinations that is a register. Where a destination has a mask of some lanes, the statement
assigns to exactly these lanes of the register, and running it changes nothing else; where it has
an empty mask, the whole register is assigned to. -/
theorem written_lanes {copies : List Assignment} {outside : Bool} {head : OperationHead}
    {operands : List Operand} (hdsts : destinations head operands ≠ [])
    (hmapped : ∀ opcode,
      .unmapped opcode ∉ (operation ctx copies outside head operands).value) :
    WriteTo ctx (destinations head operands)
      (operation ctx copies outside head operands).value := by
  unfold operation at hmapped ⊢
  unfold destinations at hdsts ⊢
  cases hroles : OperandRoles.ofList operands with
  | unary dst src =>
    simp only [hroles] at hmapped
    exact writeTo_unary hmapped
  | binary dst a b =>
    simp only [hroles] at hmapped
    exact writeTo_binary hmapped
  | trinary dst a b c =>
    simp only [hroles] at hmapped
    exact writeTo_ternary hmapped
  | generic operands' =>
    simp only [hroles] at hmapped hdsts
    dsimp only
    -- the lookups with a level, a bias or gradients
    split at hdsts
    case h_4 => exact absurd rfl hdsts
    all_goals
      next hop =>
        unfold general at hmapped ⊢
        rw [hop] at hmapped ⊢
        exact writeTo_textureLookup hmapped

end

/-! ### Copies with a mask -/

/-- A temporary register as an operand. -/
def tempOperand (number : UInt64) (selection : ComponentSelection) : Operand :=
  .mk ⟨0, .temp, .four selection, .none, default, false⟩ (.fixed .immediate32 number .nil) none

/-- The operands of a copy between two temporary registers, the first of which has a mask. -/
def maskedCopy (mask : LaneMask) : List Operand :=
  [tempOperand 0 (.mask mask), tempOperand 1 (.swizzle .x .y .z .w)]

/-- What a copy says apart from its operands. -/
def copyHead : OperationHead := ⟨.mov, 0, false, false, [], none⟩

/-- All registers are variables of floats. -/
def floatContext : Context := ⟨none, fun _ => .float, fun _ => .float, []⟩

/-- The second and the fourth lane of a register are assigned to. -/
theorem written_lanes_maskedCopy :
    destinations copyHead (maskedCopy 0b1010) ≠ [] ∧
      (∀ opcode, .unmapped opcode ∉
        (operation floatContext [] true copyHead (maskedCopy 0b1010)).value) ∧
      ∃ s, (operation floatContext [] true copyHead (maskedCopy 0b1010)).value = [s] ∧
        s.AssignsLanes ⟨.register .temp 0, none, none⟩ [.y, .w] := by
  have hdsts : destinations copyHead (maskedCopy 0b1010) ≠ [] := by decide
  have hmapped : ∀ opcode, .unmapped opcode ∉
      (operation floatContext [] true copyHead (maskedCopy 0b1010)).value := by
    intro opcode hmem
    cases List.mem_singleton.1 hmem
  refine ⟨hdsts, hmapped, _, rfl, ?_⟩
  have hwritten := written_lanes hdsts hmapped
  obtain ⟨register, hregister, hlanes, -⟩ :=
    (List.forall₂_cons.1 hwritten).1 (0b1010) rfl
  cases hregister
  exact hlanes (by decide)

/-- All variables are registers of four floats. -/
def registerScope : Scope := fun _ => .vec4

/-- Registers that hold twos, but for a nine in the first. -/
def nineAndTwos : Memory := fun p => if p.name = .register .temp 0 then 9 else 2

/-- An empty mask does not keep a copy from writing: all four components are replaced. -/
theorem not_written_lanes :
    ¬ ∀ (A : Arithmetic) (scope : Scope) (m m' : Memory) (ctx : Context)
        (copies : List Assignment) (outside : Bool) (head : OperationHead)
        (operands : List Operand) (dst : Operand) (mask : LaneMask) (s : Statement) (p : Place),
      destinations head operands = [dst] → dst.components = .four (.mask mask) →
      (operation ctx copies outside head operands).value = [s] →
      s.execute A scope m = .running m' → m' p ≠ m p → p.lane ∈ mask.lanes := by
  intro h
  have hlane := h conversions registerScope nineAndTwos _ floatContext [] true copyHead
    (maskedCopy 0) _ 0 _ ⟨.register .temp 0, 0, .x⟩ rfl rfl rfl rfl (by decide)
  exact absurd hlane (by decide)

end Glsl
end ShaderBytecode
