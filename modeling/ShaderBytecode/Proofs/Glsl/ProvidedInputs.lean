import ShaderBytecode.Proofs.Glsl.Entries
import ShaderBytecode.Proofs.Glsl.RegisterDeclarations

/-!
# Provided inputs

An input whose value the language provides is declared as a plain global, and `main` begins by
assigning its value to it. Both go through the elements that stand for the registers of the
signature. A register is declared by the first of its elements, and not at all if its number marks
an element without a register; values are assigned for every element.

    count_assignedInputs : a register is assigned once for each of its provided elements
    mem_plainInputs_iff  : it is a plain global if the element that declares it is provided
    assigned_once_iff    : so the plain globals are assigned, each once and nothing else, just if
                           no element is provided that does not declare its register

`not_assigned_once` shows an element without a register that is provided.

A register is counted on both sides, once as a variable that is assigned to and once as one that is
declared. Comparing counts takes care of assignments that are made twice.
-/

namespace ShaderBytecode
namespace Glsl

/-! ### Assigned registers

The prologue goes through the elements that stand for registers, of which there is one for each
stream. -/

/-- The language provides the value of an element. -/
def isProvided (stage : Option Stage) (e : SignatureElement) : Bool :=
  (providedInput? stage e.systemValue).isSome

/-- The variables that `main` begins by assigning to. -/
def assignedInputs (c : Container) : List Name :=
  (prologueOf c).filterMap fun a => a.target.target?.map Target.name

/-- The variable of an input register. -/
def inputRegister (n : UInt32) : Name := .register .input n.toNat

theorem inputRegister_inj {n n' : UInt32} : inputRegister n = inputRegister n' ↔ n = n' := by
  simp [inputRegister, UInt32.toNat_inj]

/-- What is assigned for an element is its register. -/
theorem bind_providedAssignment? (stage : Option Stage) (type : UInt32 → NumberType)
    (e : SignatureElement) :
    (providedAssignment? stage type e).bind (fun a => a.target.target?.map Target.name)
      = if isProvided stage e then some (inputRegister e.register) else none := by
  unfold providedAssignment? isProvided
  cases providedInput? stage e.systemValue with
  | none => rfl
  | some p =>
    dsimp only [Option.map_some, Option.bind_some]
    split <;> rfl

theorem assignedInputs_eq (c : Container) :
    assignedInputs c = (c.inputSignature.toList.flatMap Signature.registers).filterMap fun e =>
      if isProvided (stageOf c) e then some (inputRegister e.register) else none := by
  simp only [assignedInputs, prologueOf, prologue, List.filterMap_filterMap,
    bind_providedAssignment?]

/-- A register is assigned once for each of its provided elements. -/
theorem count_assignedInputs (c : Container) (n : UInt32) :
    (assignedInputs c).count (inputRegister n)
      = (sharingElements c.inputSignature n).countP (isProvided (stageOf c)) := by
  rw [assignedInputs_eq, List.count_filterMap, sharingElements, List.countP_filter]
  refine List.countP_congr fun e _ => ?_
  cases isProvided (stageOf c) e <;> simp [inputRegister_inj]

/-! ### Plain globals

Declarations leave out an element without a register, and all but the first of several that share
one. -/

/-- The input registers that are declared as plain globals, without a location. -/
def plainInputs (options : Options) (c : Container) : List Name :=
  ((shader options c).inputs.filter fun d => d.linkage == .provided).map fun d =>
    .register d.file d.number

/-- Of the input registers those are plain globals that are declared by a provided element. -/
theorem plainInputs_eq (options : Options) (c : Container) :
    plainInputs options c
      = ((declaringElements c.inputSignature).filter (isProvided (stageOf c))).map fun e =>
          inputRegister e.register := by
  have hlinkage (e : SignatureElement) :
      ((if (providedInput? (stageOf c) e.systemValue).isSome then Linkage.provided
        else .location (inputQualifier (stageOf c) c.program e) "in") == .provided)
        = isProvided (stageOf c) e := by
    unfold isProvided
    cases (providedInput? (stageOf c) e.systemValue).isSome <;> rfl
  -- registers that no element declares are not provided
  have hunlisted (used : List Nat) : (used.map fun n =>
      (⟨.location "" "in", .vec4, .input, n, none⟩ : RegisterDeclaration)).filter
        (fun d => d.linkage == .provided) = [] := by
    refine List.filter_eq_nil_iff.2 (List.forall_mem_map.2 fun n _ => ?_)
    simp
  change List.map _ (List.filter _ (inputDeclarations _ _ _ _)) = _
  simp only [inputDeclarations, registerDeclarations, List.filter_append, hunlisted,
    List.append_nil, List.filter_map, Function.comp_def, hlinkage, List.map_map]
  rfl

/-- A register is a plain global if the first of its elements is provided. -/
theorem mem_plainInputs_iff {options : Options} {c : Container} {n : UInt32}
    (hn : n ≠ SignatureElement.noRegister) :
    inputRegister n ∈ plainInputs options c ↔
      ∃ e ∈ (sharingElements c.inputSignature n).head?, isProvided (stageOf c) e := by
  -- of the elements for a register the first one declares it
  have hmem (e : SignatureElement) : e ∈ declaringElements c.inputSignature ∧ e.register = n ↔
      e ∈ (sharingElements c.inputSignature n).head? := by
    rw [Option.mem_def, ← Option.mem_toList, ← filter_declaringElements hn, List.mem_filter,
      beq_iff_eq]
  simp only [plainInputs_eq, List.mem_map, List.mem_filter, inputRegister_inj, ← hmem]
  grind

theorem noRegister_notMem_distinctRegisters {e : SignatureElement} :
    ∀ {seen : List UInt32} {l : List SignatureElement}, e ∈ distinctRegisters seen l →
      e.register ≠ SignatureElement.noRegister
  | _, [], h => by cases h
  | seen, e' :: rest, h => by
    rw [distinctRegisters] at h
    split at h
    · exact noRegister_notMem_distinctRegisters h
    · next hnew =>
      rcases List.mem_cons.1 h with rfl | h
      · exact fun he => hnew (.inl he)
      · exact noRegister_notMem_distinctRegisters h

/-- The number that marks an element without a register is not the number of a plain global. -/
theorem noRegister_notMem_plainInputs (options : Options) (c : Container) :
    inputRegister SignatureElement.noRegister ∉ plainInputs options c := by
  simp only [plainInputs_eq, List.mem_map, List.mem_filter, inputRegister_inj, not_exists, not_and,
    and_imp]
  exact fun e he _ => noRegister_notMem_distinctRegisters he

/-! ### Assignments and declarations

The difference between the two is in the elements that declare nothing. If one of them is provided,
then its register is assigned once more than it is declared. -/

/-- The elements for a register that do not declare it: all but the first, and all that have no
register. -/
def undeclaringElements (s : Option Signature) (n : UInt32) : List SignatureElement :=
  if n = SignatureElement.noRegister then sharingElements s n else (sharingElements s n).tail

/-- A register that is a plain global is assigned once, and any other not at all, if none of the
elements that do not declare it is provided. -/
theorem count_assignedInputs_eq_iff (options : Options) (c : Container) (n : UInt32) :
    (assignedInputs c).count (inputRegister n)
        = (if inputRegister n ∈ plainInputs options c then 1 else 0) ↔
      ∀ e ∈ undeclaringElements c.inputSignature n, isProvided (stageOf c) e = false := by
  rw [count_assignedInputs, undeclaringElements]
  by_cases hn : n = SignatureElement.noRegister
  · rw [if_pos hn, hn, if_neg (noRegister_notMem_plainInputs options c)]
    simp [List.countP_eq_zero]
  · rw [if_neg hn]
    simp only [mem_plainInputs_iff hn]
    cases sharingElements c.inputSignature n with
    | nil => simp
    | cons e rest => -- the first element is counted just if it makes the register a plain global
      simp [List.countP_cons, List.countP_eq_zero]

/-- **Provided inputs are assigned where they are declared.** The variables that `main` begins by
assigning to are the input registers that are declared as plain globals, and each of them is
assigned once, just if the language provides no element that does not declare its register. -/
theorem assigned_once_iff (options : Options) (c : Container) :
    (∀ v, (assignedInputs c).count v = if v ∈ plainInputs options c then 1 else 0) ↔
      ∀ n, ∀ e ∈ undeclaringElements c.inputSignature n, isProvided (stageOf c) e = false := by
  constructor
  · exact fun h n => (count_assignedInputs_eq_iff options c n).1 (h (inputRegister n))
  · intro h v
    by_cases hv : ∃ n, v = inputRegister n
    · obtain ⟨n, rfl⟩ := hv
      exact (count_assignedInputs_eq_iff options c n).2 (h n)
    · -- Nothing else is assigned or declared.
      have hassigned : v ∉ assignedInputs c := by
        intro hmem
        rw [assignedInputs_eq, List.mem_filterMap] at hmem
        obtain ⟨e, -, he⟩ := hmem
        split at he <;> cases he
        exact hv ⟨e.register, rfl⟩
      have hplain : v ∉ plainInputs options c := by
        intro hmem
        rw [plainInputs_eq, List.mem_map] at hmem
        obtain ⟨e, -, rfl⟩ := hmem
        exact hv ⟨e.register, rfl⟩
      rw [List.count_eq_zero_of_not_mem hassigned, if_neg hplain]

/-- A geometry program with the number of its primitive as an element without a register. -/
def primitiveIdContainer : Container :=
  .ofPayloads (.ofBytes #[]) []
    [.program ⟨4, 0, .geometry, []⟩,
      .inputSignature ⟨[⟨"SV_PrimitiveID", 0, .primitiveId, .uint32,
        SignatureElement.noRegister, 1, 1, 0, .full⟩]⟩]

/-- A value is assigned to the register of an element without a register, although this is not
declared. -/
theorem not_assigned_once :
    ¬ ∀ (options : Options) (c : Container) (v : Name),
      (assignedInputs c).count v = if v ∈ plainInputs options c then 1 else 0 := by
  intro h
  have hcount := h .standard primitiveIdContainer (inputRegister SignatureElement.noRegister)
  rw [if_neg (noRegister_notMem_plainInputs _ _), count_assignedInputs] at hcount
  exact absurd hcount (by decide)

end Glsl
end ShaderBytecode
