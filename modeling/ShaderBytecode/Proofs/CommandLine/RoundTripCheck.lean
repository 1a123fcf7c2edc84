import ShaderBytecode.Proofs.CommandLine.InMemory
import ShaderBytecode.Proofs.Container.RoundTrip
import ShaderBytecode.Proofs.Files.Paths

/-!
# Checking that a container comes back

The command reads a container, writes it back and compares. What was written is as long as the
container announces, has what stands in its header, its table and its chunks, and is zero elsewhere,
so there are two reasons for a difference: a byte that is not zero and that no part of the container
covers, and bytes behind the container. The first difference is reported:

    roundTrip_verdict : the command succeeds ↔ there is no stray byte and nothing behind
-/

namespace ShaderBytecode

/-! ### First differences

Two lists are compared through their bytes at each place, with none behind the end. So a list that
goes on where the other one ends differs from it at that end. -/

theorem Bytes.firstDifference?_eq_some_iff {as bs : List UInt8} {p : Nat} :
    firstDifference? as bs = some p ↔ as[p]? ≠ bs[p]? ∧ ∀ i < p, as[i]? = bs[i]? := by
  induction as generalizing bs p with
  | nil =>
    cases bs with
    | nil => simp [firstDifference?]
    | cons b bs =>
      cases p with
      | zero => simp [firstDifference?]
      | succ p => rw [Nat.forall_lt_succ_left]; simp [firstDifference?]
  | cons a as ih =>
    cases bs with
    | nil =>
      cases p with
      | zero => simp [firstDifference?]
      | succ p => rw [Nat.forall_lt_succ_left]; simp [firstDifference?]
    | cons b bs =>
      -- the heads agree, and the search goes on in the tails
      by_cases hhead : a = b
      · cases p with
        | zero => simp [firstDifference?, hhead]
        | succ p => rw [Nat.forall_lt_succ_left]; simp [firstDifference?, hhead, ih]
      · -- they differ, and the search stops here
        cases p with
        | zero => simp [firstDifference?, hhead]
        | succ p => rw [Nat.forall_lt_succ_left]; simp [firstDifference?, hhead]

namespace Container

/-! ### Bytes that do not come back

What is written is made of zeros first, over which the header, the table and the chunks are laid. A
byte that no part covers is therefore zero when it comes back. -/

/-- A byte within a container that is not zero and that no part of the container covers. -/
def StrayAt (c : Container) (data : Bytes) (i : Nat) : Prop :=
  i < c.header.size.toNat ∧ ¬ Covered data i ∧ data[i]? ≠ some 0

instance (c : Container) (data : Bytes) (i : Nat) : Decidable (StrayAt c data i) :=
  inferInstanceAs (Decidable (_ ∧ _ ∧ _))

section

variable {c : Container} {data out : Bytes}

theorem ReadFrom.size_header (h : ReadFrom c data) : c.header.size.toNat = announcedSize data := by
  rw [h.header_eq]
  rfl

/-- What is written of a container that was read, byte by byte. -/
theorem ReadFrom.exists_encode (h : ReadFrom c data) :
    ∃ out, c.encode = .ok out ∧ out.size = c.header.size.toNat ∧
      ∀ i < c.header.size.toNat, out[i]? = if Covered data i then data[i]? else some 0 := by
  rw [h.size_header]
  refine ⟨_, h.encode_eq, by rw [size_writePieces, Array.size_replicate], fun i hi => ?_⟩
  rw [getElem?_writePieces (fun p hp => Nat.le_trans (le_size_of_mem_listedPieces h.framed hp)
    h.framed.size_le) (by rwa [Array.size_replicate]), Array.getElem?_replicate, if_pos hi]
  simp only [exists_mem_listedPieces_iff]

/-- A byte within the container comes back unless it is stray. -/
theorem getElem?_eq_iff_not_strayAt {i : Nat} (hi : i < c.header.size.toNat)
    (hout : out[i]? = if Covered data i then data[i]? else some 0) :
    data[i]? = out[i]? ↔ ¬ StrayAt c data i := by
  rw [hout]
  by_cases hcovered : Covered data i
  · simp [StrayAt, hcovered]
  · simp [StrayAt, hcovered, hi]

/-- Where the first difference is: at the first stray byte, or at the first byte behind the
container if there is none. -/
theorem firstDifference?_eq_some_iff_strayAt (hle : c.header.size.toNat ≤ data.size)
    (hsize : out.size = c.header.size.toNat)
    (hbyte : ∀ i < c.header.size.toNat, out[i]? = if Covered data i then data[i]? else some 0)
    {p : Nat} :
    Bytes.firstDifference? data.toList out.toList = some p ↔
      (StrayAt c data p ∧ ∀ i < p, ¬ StrayAt c data i) ∨
        (∀ i, ¬ StrayAt c data i) ∧ p = c.header.size.toNat ∧ c.header.size.toNat < data.size := by
  -- within the container, bytes differ exactly where they are stray
  have hsame : ∀ i < c.header.size.toNat, data[i]? = out[i]? ↔ ¬ StrayAt c data i :=
    fun i hi => getElem?_eq_iff_not_strayAt hi (hbyte i hi)
  -- behind its end nothing was written
  have hend : out[c.header.size.toNat]? = none := Array.getElem?_eq_none (by omega)
  rw [Bytes.firstDifference?_eq_some_iff]
  simp only [Array.getElem?_toList]
  constructor
  · rintro ⟨hdiffer, hbefore⟩
    rcases Nat.lt_trichotomy p c.header.size.toNat with hp | hp | hp
    · refine .inl ⟨?_, fun i hi => (hsame i (by omega)).1 (hbefore i hi)⟩
      exact Decidable.not_not.1 fun hnot => hdiffer ((hsame p hp).2 hnot)
    · subst hp
      refine .inr ⟨fun i hstray => (hsame i hstray.1).1 (hbefore i hstray.1) hstray, rfl, ?_⟩
      refine Nat.lt_of_not_le fun hnot => hdiffer ?_
      rw [hend, Array.getElem?_eq_none hnot]
    · -- the file would end where the container does, and nothing could differ behind
      exfalso
      have hlast := hbefore _ hp
      rw [hend, Array.getElem?_eq_none_iff] at hlast
      exact hdiffer (by rw [Array.getElem?_eq_none (by omega), Array.getElem?_eq_none (by omega)])
  · rintro (⟨hstray, hbefore⟩ | ⟨hnone, rfl, hlonger⟩)
    · have hp := hstray.1
      exact ⟨fun heq => (hsame p hp).1 heq hstray,
        fun i hi => (hsame i (by omega)).2 (hbefore i hi)⟩
    · refine ⟨?_, fun i hi => (hsame i hi).2 (hnone i)⟩
      rw [hend, Array.getElem?_eq_getElem hlonger]
      nofun

/-- The verdict on the bytes of a container: the first difference, if there is one. -/
theorem roundTrip_of_decode (h : decode data = .ok c) :
    (roundTrip data = .ok () ↔
      data.size = c.header.size.toNat ∧ ∀ i, ¬ StrayAt c data i) ∧
    ∀ e, roundTrip data = .error e ↔
      ∃ p, e = .mismatch p data.size c.header.size.toNat ∧
        ((StrayAt c data p ∧ ∀ i < p, ¬ StrayAt c data i) ∨
          (∀ i, ¬ StrayAt c data i) ∧ p = c.header.size.toNat ∧
            c.header.size.toNat < data.size) := by
  have hread := readFrom_of_decode h
  have hle : c.header.size.toNat ≤ data.size := hread.size_header ▸ hread.framed.size_le
  obtain ⟨out, hencode, hsize, hbyte⟩ := hread.exists_encode
  have hfirst := fun p => firstDifference?_eq_some_iff_strayAt (p := p) hle hsize hbyte
  simp only [roundTrip, h, hencode, hsize]
  -- either a difference was found, at the place that is stated, or there is none at all
  cases hdifference : Bytes.firstDifference? data.toList out.toList with
  | some p =>
    have hp := (hfirst p).1 hdifference
    constructor
    · refine iff_of_false nofun fun ⟨heq, hnone⟩ => ?_
      rcases hp with ⟨hstray, -⟩ | ⟨-, -, hlonger⟩
      · exact hnone p hstray
      · omega
    · intro e
      constructor
      · rintro ⟨⟩
        exact ⟨p, rfl, hp⟩
      · rintro ⟨q, rfl, hq⟩
        have hpq : some p = some q := hdifference.symm.trans ((hfirst q).2 hq)
        cases hpq
        rfl
  | none =>
    have hnot : ∀ p, ¬ ((StrayAt c data p ∧ ∀ i < p, ¬ StrayAt c data i) ∨
        (∀ i, ¬ StrayAt c data i) ∧ p = c.header.size.toNat ∧
          c.header.size.toNat < data.size) := by
      intro p hp
      rw [(hfirst p).2 hp] at hdifference
      cases hdifference
    have hequal : data = out :=
      Array.toList_inj.1 (Bytes.firstDifference?_eq_none_iff.1 hdifference)
    refine ⟨iff_of_true rfl ⟨hequal ▸ hsize, fun i hstray => ?_⟩, fun e => ?_⟩
    · exact (getElem?_eq_iff_not_strayAt hstray.1 (hbyte i hstray.1)).1 (hequal ▸ rfl) hstray
    · refine iff_of_false nofun fun ⟨p, _, hp⟩ => hnot p hp

end

end Container

/-! ### The command -/

namespace Command

/-- The command passes on the verdict on what it reads, and says so if the container comes back. -/
theorem run_roundTrip (w : World) (input : String) {data : Bytes}
    (hread : w.files.read (Path.ofText input) = .ok data) :
    w.run (perform (.roundTrip input)) =
      match Container.roundTrip data with
      | .ok () => (.ok (), { w with
          printed := w.printed ++ s!"Round-trip OK: {input} ({data.size} bytes)\n" })
      | .error e => (.error (Failure.ofRoundTrip e), w) := by
  change w.run (checkRoundTrip input) = _
  simp only [checkRoundTrip, World.run_bind, run_readInput, hread, Container.mapError_ok, run_tell,
    run_settle, run_say]
  cases Container.roundTrip data <;> rfl

open Container in
/-- **The check is exact.** For a file that holds a container the command succeeds if the file is as
long as the container announces and no byte of it is stray. Otherwise it fails, changes nothing and
reports the first stray byte, or the first byte behind the container if there is none. -/
theorem roundTrip_verdict (w : World) (input : String) {data : Bytes} {c : Container}
    (hread : w.files.read (Path.ofText input) = .ok data) (hdecode : decode data = .ok c) :
    (∀ after, w.run (perform (.roundTrip input)) = (.ok (), after) ↔
      after = { w with printed := w.printed ++ s!"Round-trip OK: {input} ({data.size} bytes)\n" } ∧
        data.size = c.header.size.toNat ∧
        ∀ i < data.size, ¬ Covered data i → data[i]? = some 0) ∧
    (∀ f after, w.run (perform (.roundTrip input)) = (.error f, after) ↔
      after = w ∧ ∃ p, f = .mismatch p data.size c.header.size.toNat ∧
        f.summary = s!"Round-trip mismatch at byte {Hex.literal p} "
          ++ s!"(input {data.size} bytes, output {c.header.size.toNat} bytes)" ∧
        ((StrayAt c data p ∧ ∀ i < p, ¬ StrayAt c data i) ∨
          (∀ i, ¬ StrayAt c data i) ∧ p = c.header.size.toNat ∧
            c.header.size.toNat < data.size)) := by
  obtain ⟨hok, herror⟩ := roundTrip_of_decode hdecode
  -- a byte that no part covers is stray unless it is zero
  have hzero : (data.size = c.header.size.toNat ∧ ∀ i, ¬ StrayAt c data i) ↔
      data.size = c.header.size.toNat ∧ ∀ i < data.size, ¬ Covered data i → data[i]? = some 0 := by
    refine and_congr_right fun hsize => forall_congr' fun i => ?_
    simp only [StrayAt, hsize, not_and, ne_eq, Decidable.not_not]
  simp only [run_roundTrip w input hread, ← hzero, ← hok]
  cases hverdict : Container.roundTrip data with
  | ok _ =>
    rw [hverdict] at herror
    refine ⟨fun after => by simp [eq_comm], fun f after => iff_of_false nofun ?_⟩
    rintro ⟨-, p, -, -, hp⟩
    cases (herror _).2 ⟨p, rfl, hp⟩
  | error e =>
    obtain ⟨p, rfl, hp⟩ := (herror e).1 hverdict
    refine ⟨fun after => iff_of_false nofun (fun h => nomatch h.2), fun f after => ?_⟩
    constructor
    · rintro ⟨⟩
      exact ⟨rfl, p, rfl, rfl, hp⟩
    · rintro ⟨rfl, q, rfl, -, hq⟩
      have hpq := hverdict.symm.trans ((herror _).2 ⟨q, rfl, hq⟩)
      cases hpq
      rfl

/-- A byte in the gap in front of the first chunk, and one behind the container. -/
def straying : Bytes := Container.overlapping.set! 41 9

/-- A folder that holds the one file. -/
def strayingWorld : World where
  files := .ofFiles [(["in"], straying)]
  printed := ""
  duration := ""

/-- Of the two bytes that do not come back the first is reported. -/
theorem roundTrip_verdict_straying :
    strayingWorld.run (perform (.roundTrip "in"))
      = (.error (.mismatch 41 65 64), strayingWorld) := by
  have hpath : Path.ofText "in" = ["in"] := Path.ofText_of_notMem (by decide)
  have hread : strayingWorld.files.read (Path.ofText "in") = .ok straying := by
    rw [hpath]
    rfl
  -- that the file is a container is found by decoding it
  have haccepted : (Container.decode straying).toOption.isSome = true := by decide +kernel
  cases hdecode : Container.decode straying with
  | error e =>
    rw [hdecode] at haccepted
    cases haccepted
  | ok c =>
    have hsize : c.header.size.toNat = 64 := by
      rw [(Container.readFrom_of_decode hdecode).header_eq]
      rfl
    obtain ⟨-, hfailed⟩ := roundTrip_verdict strayingWorld "in" hread hdecode
    rw [hsize] at hfailed
    refine (hfailed _ _).2 ⟨rfl, 41, rfl, rfl, .inl ?_⟩
    simp only [Container.StrayAt, hsize]
    decide +kernel

end Command
end ShaderBytecode
