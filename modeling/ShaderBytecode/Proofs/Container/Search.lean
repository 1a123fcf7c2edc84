import ShaderBytecode.Proofs.Container.Scan

/-!
# What a search finds

The search meets candidates one after the other. Behind each of them it goes on where the candidate
stops: a container stops at its end, and a tag without a container one byte further on. From this
all else follows, since nothing is left out between two candidates:

    pairwise_candidatesFrom          : each candidate stops where the next one begins, or before
    exists_mem_candidatesFrom        : where the tag stands, a candidate begins or runs on
    find_ordered_maximal             : the ranges that are found are containers in file order, apart
                                       from each other, and none that could be added lies outside
                                       of them

The search is not a loop over positions but a recursion that jumps, so most laws are shown by
induction on the run itself (`fun_induction`): at the end of the file, at a tag with a container, at
a tag without one, and at a position without a tag. The laws speak about the list of candidates from
a position on, and only the last one about the ranges that are left when the rejected tags are
dropped.
-/

namespace ShaderBytecode
namespace Container

/-! ### Candidates

A candidate reaches from its tag to where the search goes on. For a tag without a container that is
the next byte, since another tag may begin inside of the four bytes of this one. -/

/-- Where a candidate begins. -/
def Candidate.start : Candidate → Nat
  | accepted start _ | rejected start => start

/-- Where the search goes on behind a candidate. -/
def Candidate.stop : Candidate → Nat
  | accepted start length => start + length
  | rejected start => start + 1

/-- The range of a candidate, if it is a container. -/
def Candidate.range? : Candidate → Option (Nat × Nat)
  | accepted start length => some (start, start + length)
  | rejected _ => none

/-- What is found are the ranges of those candidates that are containers. -/
theorem find_eq (data : Bytes) : find data = (candidates data).filterMap Candidate.range? := rfl

/-- A container ends within the buffer that it begins in. -/
theorem add_le_size_of_framedLength? {data : Bytes} {start length : Nat}
    (h : framedLength? (data.extract start data.size) = some length) :
    start + length ≤ data.size := by
  have hheader := byteCount_le_of_framedLength? h
  obtain ⟨hframed, rfl⟩ := framedLength?_eq_some_iff.1 h
  have hsize := hframed.size_le
  rw [Array.size_extract] at hsize
  simp only [Header.byteCount] at hheader
  omega

/-- A tag lies within the buffer. -/
theorem add_four_le_size_of_magicAt {data : Bytes} {position : Nat}
    (h : magicAt data position = true) : position + 4 ≤ data.size := by
  have hfour : data.extract position (position + 4) = Header.magicTag.toArray := by
    simpa [magicAt] using h
  have hsize := congrArg Array.size hfour
  simp [Header.magicTag, Tag.toArray] at hsize
  omega

section

variable {data : Bytes} {position : Nat}

/-- A candidate is never empty, so the search always moves on. -/
theorem start_lt_stop_of_mem_candidatesFrom {c : Candidate} (h : c ∈ candidatesFrom data position) :
    c.start < c.stop := by
  cases c with
  | accepted start length =>
    have hheader := byteCount_le_of_framedLength? (of_accepted_mem_candidatesFrom h).2
    simp only [Candidate.start, Candidate.stop, Header.byteCount] at hheader ⊢
    omega
  | rejected start => exact Nat.lt_succ_self start

/-- No candidate begins in front of the position where the search starts. -/
theorem le_start_of_mem_candidatesFrom {c : Candidate} (h : c ∈ candidatesFrom data position) :
    position ≤ c.start := by
  fun_induction candidatesFrom data position with
  | case1 => cases h
  | case2 position _ _ length _ ih =>
    rcases List.mem_cons.1 h with rfl | h
    · exact Nat.le_refl _
    · exact Nat.le_trans (Nat.le_add_right _ _) (ih h)
  | case3 position _ _ _ ih =>
    rcases List.mem_cons.1 h with rfl | h
    · exact Nat.le_refl _
    · exact Nat.le_of_succ_le (ih h)
  | case4 position _ _ ih => exact Nat.le_of_succ_le (ih h)

/-- Each candidate stops where the next one begins, or before. -/
theorem pairwise_candidatesFrom (data : Bytes) (position : Nat) :
    (candidatesFrom data position).Pairwise fun a b => a.stop ≤ b.start := by
  fun_induction candidatesFrom data position with
  | case1 => exact List.Pairwise.nil
  | case2 position _ _ length _ ih =>
    exact List.pairwise_cons.2 ⟨fun c hc => le_start_of_mem_candidatesFrom hc, ih⟩
  | case3 position _ _ _ ih =>
    exact List.pairwise_cons.2 ⟨fun c hc => le_start_of_mem_candidatesFrom hc, ih⟩
  | case4 position _ _ ih => exact ih

/-- Every candidate uses up a byte at least. -/
theorem length_candidatesFrom_le (data : Bytes) (position : Nat) :
    (candidatesFrom data position).length ≤ data.size - position := by
  fun_induction candidatesFrom data position with
  | case1 => exact Nat.zero_le _
  | case2 position _ _ length hlength ih =>
    have hheader := byteCount_le_of_framedLength? hlength
    simp only [Header.byteCount] at hheader
    rw [List.length_cons]
    omega
  | case3 position _ _ _ ih =>
    rw [List.length_cons]
    omega
  | case4 position _ _ ih => omega

/-- At a tag that is rejected no container is framed. -/
theorem of_rejected_mem_candidatesFrom {start : Nat}
    (h : .rejected start ∈ candidatesFrom data position) :
    framedLength? (data.extract start data.size) = none := by
  fun_induction candidatesFrom data position with
  | case1 => cases h
  | case2 position _ _ length _ ih =>
    rcases List.mem_cons.1 h with heq | h
    · cases heq
    · exact ih h
  | case3 position _ _ hnone ih =>
    rcases List.mem_cons.1 h with heq | h
    · cases heq
      exact hnone
    · exact ih h
  | case4 position _ _ ih => exact ih h

/-- Where the tag stands, a candidate begins, or one that began before has not stopped yet. -/
theorem exists_mem_candidatesFrom {place : Nat} (hplace : position ≤ place)
    (htag : magicAt data place = true) :
    ∃ c ∈ candidatesFrom data position, c.start ≤ place ∧ place < c.stop := by
  -- induction on the run; only at a position without a tag nothing is left behind
  -- Behind a candidate the search goes on where it stops, so a place is left behind with it only.
  have hskip {c : Candidate} {rest : List Candidate} (hc : c.start ≤ place)
      (hrest : c.stop ≤ place → ∃ c ∈ rest, c.start ≤ place ∧ place < c.stop) :
      ∃ c' ∈ c :: rest, c'.start ≤ place ∧ place < c'.stop := by
    by_cases hstop : place < c.stop
    · exact ⟨c, List.mem_cons_self, hc, hstop⟩
    · obtain ⟨c', hc', hin⟩ := hrest (Nat.not_lt.1 hstop)
      exact ⟨c', List.mem_cons_of_mem c hc', hin⟩
  fun_induction candidatesFrom data position with
  | case1 position hend =>
    have hsize := add_four_le_size_of_magicAt htag
    omega
  | case2 position _ _ length _ ih => exact hskip hplace ih
  | case3 position _ _ _ ih => exact hskip hplace ih
  | case4 position _ hnot ih =>
    refine ih (Nat.lt_of_le_of_ne hplace ?_)
    rintro rfl
    exact hnot htag

end

/-! ### Ranges

Dropping the rejected candidates leaves the order of the others, and it loses nothing: at a rejected
tag no container is framed, so a framed place is never one of them. -/

/-- The ranges of candidates that follow each other follow each other. -/
theorem pairwise_find (data : Bytes) : (find data).Pairwise fun a b => a.1 < b.1 ∧ a.2 ≤ b.1 := by
  rw [find_eq, List.pairwise_filterMap]
  refine List.Pairwise.imp_of_mem ?_ (pairwise_candidatesFrom data 0)
  rintro (⟨start, length⟩ | start) b ha - hab r hr r' hr'
  · cases b with
    | accepted start' length' =>
      cases hr
      cases hr'
      have hlt := start_lt_stop_of_mem_candidatesFrom ha
      exact ⟨Nat.lt_of_lt_of_le hlt hab, hab⟩
    | rejected start' => cases hr'
  · cases hr

/-- **A search finds the containers of a file.** It comes to an end after no more candidates than
there are bytes. The ranges that it finds are not empty and lie within the file, each begins with
the magic tag and is as long as the framing there says, and they stand in file order and apart from
each other. A tag in front of anything that is framed like a container begins one of them, or lies
within one. -/
theorem find_ordered_maximal (data : Bytes) :
    (candidates data).length ≤ data.size ∧
    (∀ start stop, (start, stop) ∈ find data →
      start < stop ∧ stop ≤ data.size ∧ magicAt data start = true ∧
        framedLength? (data.extract start data.size) = some (stop - start)) ∧
    (find data).Pairwise (fun a b => a.1 < b.1 ∧ a.2 ≤ b.1) ∧
    ∀ place length, magicAt data place = true →
      framedLength? (data.extract place data.size) = some length →
      ∃ start stop, (start, stop) ∈ find data ∧
        (place = start ∨ (start < place ∧ place < stop)) := by
  refine ⟨length_candidatesFrom_le data 0, ?_, pairwise_find data, ?_⟩
  · intro start stop hmem
    obtain ⟨length, rfl, htag, hlength⟩ := of_mem_find hmem
    have hheader := byteCount_le_of_framedLength? hlength
    simp only [Header.byteCount] at hheader
    refine ⟨by omega, add_le_size_of_framedLength? hlength, htag, ?_⟩
    rw [Nat.add_sub_cancel_left]
    exact hlength
  · intro place length htag hlength
    obtain ⟨c, hc, hstart, hstop⟩ := exists_mem_candidatesFrom (Nat.zero_le place) htag
    cases c with
    | accepted start n =>
      refine ⟨start, start + n, ?_, ?_⟩
      · rw [find_eq]
        exact List.mem_filterMap.2 ⟨_, hc, rfl⟩
      · simp only [Candidate.start, Candidate.stop] at hstart hstop
        omega
    | rejected start =>
      -- a rejected candidate is just the tag, which is here the one of the container
      obtain rfl : start = place := by
        simp only [Candidate.start, Candidate.stop] at hstart hstop
        omega
      rw [of_rejected_mem_candidatesFrom hc] at hlength
      cases hlength

/-- A tag without a container, and behind it a container of 76 bytes whose only chunk holds a
container again. -/
def containerWithin : Bytes :=
  #[68, 88, 66, 67, 7, 68, 88, 66, 67, 0, 0, 0, 0, 0, 0, 0, 0, 0, 0, 0, 0, 0, 0, 0, 0, 1, 0, 0, 0,
    76, 0, 0, 0, 1, 0, 0, 0, 36, 0, 0, 0, 80, 82, 73, 86, 32, 0, 0, 0,
    68, 88, 66, 67, 0, 0, 0, 0, 0, 0, 0, 0, 0, 0, 0, 0, 0, 0, 0, 0, 1, 0, 0, 0,
    32, 0, 0, 0, 0, 0, 0, 0]

/-- The inner container belongs to a range that is found, although it may not be one itself. -/
theorem find_ordered_maximal_containerWithin :
    magicAt containerWithin 49 = true ∧
      framedLength? (containerWithin.extract 49 containerWithin.size) = some 32 ∧
      ∃ start stop, (start, stop) ∈ find containerWithin ∧
        (49 = start ∨ (start < 49 ∧ 49 < stop)) := by
  have htag : magicAt containerWithin 49 = true := by decide
  have hlength : framedLength? (containerWithin.extract 49 containerWithin.size) = some 32 := by
    decide +kernel
  exact ⟨htag, hlength, (find_ordered_maximal containerWithin).2.2.2 49 32 htag hlength⟩

end Container
end ShaderBytecode
