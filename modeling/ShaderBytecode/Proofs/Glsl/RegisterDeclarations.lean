import ShaderBytecode.Proofs.Glsl.SourceLanes

/-!
# Each register is declared once

An input or output register is declared as a global variable if its signature lists it, and also if
only the program uses it. Several elements of a signature may share a register, in one stream or in
several; of each stream the first one stands for the register.

    declared_once : a register that is listed or used has one declaration, with the type of its
                      variable just if the first and the last of these elements agree

The declaration follows the first of the elements and the body of the shader follows the last, so
elements of different streams that share a register have to agree about its type:
`not_declared_with_type` shows two that do not.

Both lists, of declared and of used registers, are free of repetitions by how they are made. The
statement counts declarations in all of the shader, so that a register of one file is not taken for
one of the other.
-/

namespace ShaderBytecode

/-! ### Listed registers

The elements for a register are those with its number, one for each stream. Which of them is
declared and which gives the type of the variable is a matter of the order in which they are listed.
-/

theorem Signature.exists_mem_firstPerRegister {n : UInt32} :
    ∀ {seen l : List SignatureElement}, (∃ e ∈ l, e.register = n) → (∀ s ∈ seen, s.register ≠ n) →
      ∃ e ∈ firstPerRegister seen l, e.register = n
  | _, [], h, _ => by simp at h
  | seen, e :: rest, h, hseen => by
    by_cases he : e.register = n
    · have hfirst :
          (seen.any fun s => s.register == e.register && s.stream == e.stream) = false := by
        rw [List.any_eq_false]
        intro s hs
        simp [he, hseen s hs]
      rw [firstPerRegister, hfirst]
      exact ⟨e, List.mem_cons_self, he⟩
    · obtain ⟨e', he', hn⟩ := h
      have hrest : ∃ e ∈ rest, e.register = n := by
        rcases List.mem_cons.1 he' with rfl | he'
        · exact absurd hn he
        · exact ⟨e', he', hn⟩
      rw [firstPerRegister]
      split
      · exact exists_mem_firstPerRegister hrest hseen
      · obtain ⟨e'', he'', hn⟩ :=
          exists_mem_firstPerRegister hrest (List.forall_mem_cons.2 ⟨he, hseen⟩)
        exact ⟨e'', List.mem_cons_of_mem _ he'', hn⟩

namespace Glsl

/-- The elements that stand for a register, one for each stream in which it is listed. -/
def sharingElements (s : Option Signature) (n : UInt32) : List SignatureElement :=
  (s.toList.flatMap Signature.registers).filter (·.register == n)

/-- The first and the last of some elements have one number type. -/
def AgreeOnType (elements : List SignatureElement) : Prop :=
  elements.head?.map (·.componentType.numberType)
    = elements.getLast?.map (·.componentType.numberType)

instance (elements : List SignatureElement) : Decidable (AgreeOnType elements) :=
  inferInstanceAs (Decidable (_ = _))

theorem agreeOnType_iff {elements : List SignatureElement} (t : NumberType) :
    AgreeOnType elements ↔ (elements.head?.map (·.componentType.numberType)).getD t
      = (elements.getLast?.map (·.componentType.numberType)).getD t := by
  cases elements with
  | nil => simp [AgreeOnType]
  | cons e l => simp [AgreeOnType, List.getLast?_cons]

theorem signatureType_eq (s : Option Signature) (n : UInt32) :
    signatureType s n
      = ((sharingElements s n).getLast?.map (·.componentType.numberType)).getD .float := by
  rw [sharingElements, List.getLast?_filter, signatureType]
  split
  · next e he => rw [he]; rfl
  · next he => rw [he]; rfl

/-- Of the elements for a register the first one is declared. -/
theorem filter_distinctRegisters {n : UInt32} (hn : n ≠ SignatureElement.noRegister) :
    ∀ (seen : List UInt32) (l : List SignatureElement), n ∉ seen →
      (distinctRegisters seen l).filter (·.register == n) = (l.find? (·.register == n)).toList := by
  -- Behind the first one, none is left.
  have hnone : ∀ (l : List SignatureElement) (seen : List UInt32), n ∈ seen →
      (distinctRegisters seen l).filter (·.register == n) = [] := by
    intro l
    induction l with
    | nil => exact fun _ _ => rfl
    | cons e l ih =>
      intro seen hseen
      rw [distinctRegisters]
      split
      · exact ih seen hseen
      · next hnew =>
        have he : (e.register == n) = false := by
          rw [beq_eq_false_iff_ne]
          rintro rfl
          exact hnew (.inr hseen)
        rw [List.filter_cons_of_neg (by simp [he])]
        exact ih _ (List.mem_cons_of_mem _ hseen)
  intro seen l
  induction l generalizing seen with
  | nil => exact fun _ => rfl
  | cons e l ih =>
    intro hseen
    by_cases he : e.register = n
    · have hnew : ¬ (e.register = SignatureElement.noRegister ∨ e.register ∈ seen) := by
        rw [he]
        exact not_or.2 ⟨hn, hseen⟩
      rw [distinctRegisters, if_neg hnew, List.filter_cons_of_pos (by simp [he]),
        hnone l _ (by simp [he]), List.find?_cons_of_pos (by simp [he])]
      rfl
    · rw [distinctRegisters, List.find?_cons_of_neg (by simp [he])]
      split
      · exact ih seen hseen
      · rw [List.filter_cons_of_neg (by simp [he])]
        exact ih _ (by simp [hseen, Ne.symm he])

theorem filter_declaringElements {s : Option Signature} {n : UInt32}
    (hn : n ≠ SignatureElement.noRegister) :
    (declaringElements s).filter (·.register == n) = (sharingElements s n).head?.toList := by
  rw [declaringElements, filter_distinctRegisters hn [] _ (by simp), sharingElements,
    List.head?_filter]

/-! ### Used registers

The registers that operands name are collected with their repetitions, which are then left out. -/

theorem nodup_eraseDups [BEq α] [LawfulBEq α] : ∀ l : List α, l.eraseDups.Nodup
  | [] => by simp
  | a :: l => by
    rw [List.eraseDups_cons, List.nodup_cons]
    exact ⟨by simp [List.mem_eraseDups], nodup_eraseDups _⟩
termination_by l => l.length
decreasing_by exact Nat.lt_succ_of_le (List.length_filter_le _ _)

theorem mem_ascending {ns : List Nat} {n : Nat} : n ∈ ascending ns ↔ n ∈ ns := by
  rw [ascending, List.mem_eraseDups, List.mem_mergeSort]

theorem nodup_ascending (ns : List Nat) : (ascending ns).Nodup := nodup_eraseDups _

/-- An operand of the program names a register of a file by its last index. -/
def Uses (program : Option Program) (file : RegisterFile) (n : UInt32) : Prop :=
  ∃ p ∈ program, ∃ o ∈ p.operands, o.file = file ∧ o.lastIndexValue? = some n.toUInt64

theorem Uses.mem_usedRegisters {program : Option Program} {file : RegisterFile} {n : UInt32}
    (h : Uses program file n) : n.toNat ∈ usedRegisters program file := by
  obtain ⟨p, rfl, o, ho, hfile, hlast⟩ := h
  rw [usedRegisters, mem_ascending, List.mem_filterMap]
  refine ⟨o, by simpa using ho, ?_⟩
  rw [if_pos hfile, hlast, Option.map_some, UInt32.toUInt32_toUInt64]

/-! ### Declarations

A register is listed, or else it is only used. The two kinds of declarations are put behind one
another, and the second leaves out what the first has. -/

/-- Of numbers without repetitions, one is chosen once at most. -/
theorem filter_beq_of_nodup {l : List Nat} (h : l.Nodup) (n : Nat) :
    l.filter (· == n) = if n ∈ l then [n] else [] := by
  rw [List.filter_beq, h.count]
  split <;> rfl

/-- The declarations with a number among those of a file: that of the first element for the
register, or else that of a register that is only used. -/
theorem filter_registerDeclarations {file : RegisterFile} {direction : String}
    {s : Option Signature} {linkage : SignatureElement → Linkage} {used : List Nat} {n : UInt32}
    (hn : n ≠ SignatureElement.noRegister) (hused : used.Nodup)
    (h : sharingElements s n ≠ [] ∨ n.toNat ∈ used) :
    ∃ d, (registerDeclarations file direction (declaringElements s) linkage used).filter
        (·.number == n.toNat) = [d] ∧
      d.type = registerType (((sharingElements s n).head?.map
        (·.componentType.numberType)).getD .float) := by
  have hnumber (e : SignatureElement) : (e.register.toNat == n.toNat) = (e.register == n) := by
    rw [Bool.eq_iff_iff, beq_iff_eq, beq_iff_eq, UInt32.toNat_inj]
  have hlisted : (declaringElements s).filter (fun e => e.register.toNat == n.toNat)
      = (sharingElements s n).head?.toList := by
    simp only [hnumber, filter_declaringElements hn]
  have hany : (declaringElements s).any (fun e => e.register.toNat == n.toNat)
      = (sharingElements s n).head?.isSome := by
    rw [← List.isSome_find?, ← List.head?_filter, hlisted, Option.head?_toList]
  unfold registerDeclarations
  simp only [List.filter_append, List.filter_map, Function.comp_def, hlisted,
    filter_beq_of_nodup (hused.filter _), List.mem_filter, hany]
  -- A register that is listed is left out of those that are only used.
  cases hfirst : (sharingElements s n).head? with
  | some e =>
    exact ⟨⟨linkage e, registerType e.componentType.numberType, file, e.register.toNat,
      some e.semantic⟩, by simp, rfl⟩
  | none =>
    have hmem : n.toNat ∈ used := by
      rcases h with h | h
      · exact absurd (List.head?_eq_none_iff.1 hfirst) h
      · exact h
    exact ⟨⟨.location "" direction, .vec4, file, n.toNat, none⟩, by simp [hmem], rfl⟩

/-! ### Whole shaders

A file of registers has its own declarations, and the filter by file takes those of the other away.
-/

/-- The signature of a register file. -/
def signatureOf (c : Container) : RegisterFile → Option Signature
  | .input => c.inputSignature
  | .output => c.outputSignature
  | _ => none

/-- The declarations of global variables for a register. -/
def Shader.declarationsOf (s : Shader) (file : RegisterFile) (n : UInt32) :
    List RegisterDeclaration :=
  (s.inputs ++ s.outputs).filter fun d => d.file == file && d.number == n.toNat

theorem file_of_mem_registerDeclarations {file : RegisterFile} {direction : String}
    {elements : List SignatureElement} {linkage : SignatureElement → Linkage} {used : List Nat} :
    ∀ d ∈ registerDeclarations file direction elements linkage used, d.file = file := by
  simp only [registerDeclarations, List.forall_mem_append, List.forall_mem_map]
  simp

/-- The declarations for a register are among those of its file. -/
theorem declarationsOf_eq {options : Options} {c : Container} {file : RegisterFile} {n : UInt32}
    (hfile : file = .input ∨ file = .output) :
    ∃ direction linkage, (shader options c).declarationsOf file n
      = (registerDeclarations file direction (declaringElements (signatureOf c file)) linkage
          (usedRegisters c.program file)).filter (·.number == n.toNat) := by
  have hinputs : ∀ d ∈ (shader options c).inputs, d.file = .input :=
    file_of_mem_registerDeclarations
  have houtputs : ∀ d ∈ (shader options c).outputs, d.file = .output :=
    file_of_mem_registerDeclarations
  -- the filter on the file keeps all declarations of one kind and none of the other
  have hown {l : List RegisterDeclaration} (h : ∀ d ∈ l, d.file = file) :
      l.filter (fun d => d.file == file && d.number == n.toNat) = l.filter (·.number == n.toNat) :=
    List.filter_congr fun d hd => by simp [h d hd]
  have hother {l : List RegisterDeclaration} (h : ∀ d ∈ l, d.file ≠ file) :
      l.filter (fun d => d.file == file && d.number == n.toNat) = [] :=
    List.filter_eq_nil_iff.2 fun d hd => by simp [h d hd]
  unfold Shader.declarationsOf
  rw [List.filter_append]
  rcases hfile with rfl | rfl
  · rw [hown hinputs, hother fun d hd => by simp [houtputs d hd], List.append_nil]
    exact ⟨_, _, rfl⟩
  · rw [hother fun d hd => by simp [hinputs d hd], hown houtputs, List.nil_append]
    exact ⟨_, _, rfl⟩

/-- **Each register is declared once.** A register that the signature lists, or that an operand of
the program names, has exactly one declaration among the global variables. It has the type of the
variable that the body reads and writes just if the first and the last of the elements that stand
for the register agree about it. -/
theorem declared_once {options : Options} {c : Container} {file : RegisterFile} {n : UInt32}
    (hfile : file = .input ∨ file = .output) (hn : n ≠ SignatureElement.noRegister)
    (h : (∃ s ∈ signatureOf c file, ∃ e ∈ s.elements, e.register = n) ∨ Uses c.program file n) :
    ∃ d, (shader options c).declarationsOf file n = [d] ∧
      (d.type = registerType ((contextOf c).backingType file n) ↔
        AgreeOnType (sharingElements (signatureOf c file) n)) := by
  have hsharing : sharingElements (signatureOf c file) n ≠ [] ∨
      n.toNat ∈ usedRegisters c.program file := by
    rcases h with ⟨s, hs, hlisted⟩ | huses
    · obtain ⟨e, he, hregister⟩ : ∃ e ∈ s.registers, e.register = n :=
        Signature.exists_mem_firstPerRegister hlisted (by simp)
      refine .inl (List.ne_nil_of_mem (List.mem_filter.2 ⟨?_, beq_iff_eq.2 hregister⟩))
      rw [hs]
      simpa using he
    · exact .inr huses.mem_usedRegisters
  -- the variable has the type of the last element
  have hbacking : (contextOf c).backingType file n = signatureType (signatureOf c file) n := by
    rcases hfile with rfl | rfl <;> rfl
  obtain ⟨direction, linkage, hdeclarations⟩ := declarationsOf_eq (n := n) hfile
  obtain ⟨d, hd, htype⟩ := filter_registerDeclarations hn (nodup_ascending _) hsharing
  refine ⟨d, hdeclarations.trans hd, ?_⟩
  rw [htype, hbacking, signatureType_eq, agreeOnType_iff .float, registerType, registerType,
    ValueType.mk.injEq, and_iff_left rfl]

/-- A container with an output register that two streams share, of a type in each. -/
def twoStreams (first second : ComponentType) : Container :=
  .ofPayloads (.ofBytes #[]) []
    [.outputSignature ⟨[⟨"POS", 0, .undefined, first, 0, 0xF, 0, 0, .full⟩,
      ⟨"IDS", 0, .undefined, second, 0, 0xF, 0, 1, .full⟩]⟩]

/-- Two streams that agree. -/
theorem declared_once_twoStreams :
    ∃ d, (shader .standard (twoStreams .uint32 .uint32)).declarationsOf .output 0 = [d] ∧
      d.type = registerType .uint := by
  have hlisted : ∃ s ∈ signatureOf (twoStreams .uint32 .uint32) .output,
      ∃ e ∈ s.elements, e.register = 0 := ⟨_, rfl, _, List.mem_cons_self, rfl⟩
  obtain ⟨d, hd, htype⟩ : ∃ d,
      (shader .standard (twoStreams .uint32 .uint32)).declarationsOf .output 0 = [d] ∧ _ :=
    declared_once (.inr rfl) (by decide) (.inl hlisted)
  exact ⟨d, hd, htype.2 (by decide)⟩

/-- Two streams that do not: the register is declared with floats, and the body writes unsigned
numbers to it. -/
theorem not_declared_with_type :
    ¬ ∀ (options : Options) (c : Container) (file : RegisterFile) (n : UInt32),
      file = .input ∨ file = .output → n ≠ SignatureElement.noRegister →
      (∃ s ∈ signatureOf c file, ∃ e ∈ s.elements, e.register = n) ∨ Uses c.program file n →
      ∃ d, (shader options c).declarationsOf file n = [d] ∧
        d.type = registerType ((contextOf c).backingType file n) := by
  intro h
  have hlisted : ∃ s ∈ signatureOf (twoStreams .float32 .uint32) .output,
      ∃ e ∈ s.elements, e.register = 0 := ⟨_, rfl, _, List.mem_cons_self, rfl⟩
  obtain ⟨d, hd, htype⟩ := h .standard _ .output 0 (.inr rfl) (by decide) (.inl hlisted)
  have hdeclared : ((shader .standard (twoStreams .float32 .uint32)).declarationsOf .output 0).map
      RegisterDeclaration.type = [registerType .float] := by decide +kernel
  rw [hd, List.map_singleton, htype] at hdeclared
  exact absurd hdeclared (by decide)

end Glsl
end ShaderBytecode
