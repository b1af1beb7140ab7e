import SignedFlash.Proofs.Boundaries
import SignedFlash.Proofs.History
import Mathlib.Order.Bounds.Basic

/-!
# What a scan covers

From each boundary a scan goes on to the next one, until the buffer ends. Rounding up stops at the
greatest offset, where it stays below what it is given, but no buffer reaches so far: every scan
ends, and has one report for each boundary from its start on.
-/

namespace SignedFlash

/-! ## Rounding up -/

-- Up to the last boundary, rounding up leads to the next boundary.
theorem roundUp_isLeast {offset : Nat} (h : offset ≤ 2 ^ 64 - alignment) :
    IsLeast {boundary | alignment ∣ boundary ∧ offset ≤ boundary} (roundUp offset) := by
  have hcount : boundaryCount offset ≤ 2 ^ 53 - 1 := by
    rw [boundaryCount_le_iff]
    unfold alignment at *
    omega
  rw [roundUp_eq, Nat.min_eq_left hcount]
  refine ⟨⟨Nat.dvd_mul_right _ _, boundaryCount_le_iff.mp le_rfl⟩, ?_⟩
  rintro _ ⟨⟨k, rfl⟩, hk⟩
  exact Nat.mul_le_mul_left _ (boundaryCount_le_iff.mpr hk)

-- Above the last boundary, it leads back to that one.
theorem roundUp_of_gt {offset : Nat} (h : 2 ^ 64 - alignment < offset) :
    roundUp offset = 2 ^ 64 - alignment := by
  unfold roundUp alignment maxOffset at *
  omega

/-! ## The loop of a scan -/

/-- The offsets below a stop offset that are visited in going from one to the next boundary. A list
stands for a loop that ends: if it went on for ever there would be none. -/
inductive Visits (stop : Nat) : Nat → List Nat → Prop where
  | done {offset : Nat} (hstop : stop ≤ offset) : Visits stop offset []
  | next {offset : Nat} {later : List Nat} (hlt : offset < stop)
    (hlater : Visits stop (roundUp (offset + 1)) later) : Visits stop offset (offset :: later)

-- What is visited depends on nothing but the first and the stop offset.
theorem Visits.unique {stop offset : Nat} {visited visited' : List Nat}
    (h : Visits stop offset visited) (h' : Visits stop offset visited') : visited' = visited := by
  induction h generalizing visited' with
  | done hstop =>
    cases h' with
    | done _ => rfl
    | next hlt _ => omega
  | next hlt _ ih =>
    cases h' with
    | done hstop => omega
    | next _ hlater => rw [ih hlater]

-- The boundaries from a start offset on are the first one and those after it.
theorem boundaries_eq_cons {start stop first : Nat} {later : List Nat}
    (h : boundaries start stop = first :: later) :
    first = alignment * boundaryCount start ∧ first < stop ∧
      later = boundaries (first + 1) stop := by
  have hsucc (k : Nat) : boundaryCount (alignment * k + 1) = k + 1 := by
    unfold boundaryCount alignment
    omega
  have hmem : first ∈ boundaries start stop := h ▸ List.mem_cons_self
  obtain ⟨-, -, hlt⟩ := mem_boundaries_iff.mp hmem
  unfold boundaries at h
  cases hcount : boundaryCount stop - boundaryCount start with
  | zero =>
    rw [hcount] at h
    exact nomatch h
  | succ n =>
    rw [hcount, List.range'_succ, List.map_cons, List.cons.injEq] at h
    obtain ⟨rfl, rfl⟩ := h
    refine ⟨rfl, hlt, ?_⟩
    rw [boundaries, hsucc, show boundaryCount stop - (boundaryCount start + 1) = n by omega]

/-- From the first boundary on, the loop visits every boundary, and ends. -/
theorem visits_boundaries {stop : Nat} (hstop : stop ≤ maxLength) (start : Nat) :
    Visits stop (roundUp start) (boundaries start stop) := by
  have hcount : boundaryCount stop ≤ 2 ^ 53 - 1 := by
    rw [boundaryCount_le_iff]
    unfold alignment
    unfold maxLength at hstop
    omega
  have hround : roundUp start = alignment * min (boundaryCount start) (2 ^ 53 - 1) := roundUp_eq _
  -- on the boundaries that are left, of which each visit takes the first
  generalize hleft : boundaries start stop = left
  induction left generalizing start with
  | nil =>
    have hnone : boundaryCount stop - boundaryCount start = 0 := by
      simpa [boundaries] using hleft
    exact .done (by rw [hround, ← boundaryCount_le_iff]; omega)
  | cons first later ih =>
    obtain ⟨hfirst, hlt, hlater⟩ := boundaries_eq_cons hleft
    have hbelow : boundaryCount start ≤ 2 ^ 53 - 1 := by
      by_contra hgt
      rw [hfirst] at hlt
      have hge : stop ≤ alignment * boundaryCount start := boundaryCount_le_iff.mp (by omega)
      omega
    rw [hround, Nat.min_eq_left hbelow, ← hfirst]
    exact .next hlt (ih (first + 1) (roundUp_eq _) hlater.symm)

/-! ## Reports -/

-- There is one report for each boundary, in the order of the boundaries.
theorem Verifier.offsets_scan (v : Verifier) (session : Session) {buf : Bytes}
    (hlength : buf.length ≤ maxLength) (start : Nat) :
    (v.scan session buf start).reports.map Report.offset = boundaries start buf.length := by
  have hoffset : Report.offset ∘ Step.report = (fun task => task.site.offset) ∘ Step.task := by
    funext step
    exact Step.offset_report
  rw [v.reports_scan, List.map_map, hoffset, ← List.map_map, Session.map_task_steps,
    sites_eq hlength, List.map_map, List.map_map]
  exact List.map_id _

-- Every report of a scan is the report on a candidate, in one of the sessions of the scan.
theorem Verifier.exists_verifyCandidate_of_mem_scan (v : Verifier) {session : Session}
    {buf : Bytes} {start : Nat} {r : Report} (h : r ∈ (v.scan session buf start).reports) :
    ∃ current, r = (v.verifyCandidate current buf r.offset).report := by
  rw [v.reports_scan] at h
  obtain ⟨step, hstep, rfl⟩ := List.mem_map.mp h
  have htask : step.task ∈ (sites buf start).map (Task.mk v) := by
    rw [← session.map_task_steps ((sites buf start).map (Task.mk v))]
    exact List.mem_map_of_mem hstep
  obtain ⟨site, hsite, htask⟩ := List.mem_map.mp htask
  refine ⟨step.session, ?_⟩
  rw [Step.offset_report, ← htask, verifyCandidate, ← eq_of_mem_sites hsite, Step.report,
    Step.verification, ← htask]

/-- The loop of a scan ends, whatever becomes of the candidates that it verifies. It reports on the
boundaries from the start offset to the end of the buffer, in order and each once: on none if the
start is above the last boundary, where rounding up leads back below it. Everywhere else rounding up
leads to the next boundary. -/
theorem scan_covers_boundaries (v : Verifier) (session : Session) {buf : Bytes}
    (hlength : buf.length ≤ maxLength) (start : Nat) :
    let offsets := (v.scan session buf start).reports.map Report.offset
    Visits buf.length (roundUp start) offsets ∧
      offsets.Pairwise (· < ·) ∧
      (∀ offset, offset ∈ offsets ↔
        alignment ∣ offset ∧ start ≤ offset ∧ offset < buf.length) ∧
      (2 ^ 64 - alignment < start → roundUp start < start ∧ offsets = []) ∧
      ∀ offset ≤ 2 ^ 64 - alignment,
        IsLeast {boundary | alignment ∣ boundary ∧ offset ≤ boundary} (roundUp offset) := by
  intro offsets
  have hoffsets : offsets = boundaries start buf.length := v.offsets_scan session hlength start
  rw [hoffsets]
  refine ⟨visits_boundaries hlength start, boundaries_sorted _ _, fun _ => mem_boundaries_iff,
    fun hstart => ?_, fun _ => roundUp_isLeast⟩
  have hround := roundUp_of_gt hstart
  refine ⟨hround ▸ hstart, ?_⟩
  have hnone : Visits buf.length (roundUp start) [] := by
    apply Visits.done
    rw [hround]
    unfold maxLength at hlength
    unfold alignment
    omega
  exact hnone.unique (visits_boundaries hlength start)

-- A start behind a boundary leaves that one out, and a start behind the last boundary all of them.
theorem scans_of_erased_flash :
    let v : Verifier := ⟨{}, KeyTable.empty, InfoBank.erased⟩
    let session := Session.start ⟨fun _ => 0⟩
    let flash : Bytes := List.replicate 5000 0xff
    flash.length ≤ maxLength ∧
      (v.scan session flash 1).reports.map Report.offset = [2048, 4096] ∧
      (v.scan session flash (2 ^ 64 - 1)).reports.map Report.offset = [] := by
  intro v session flash
  have hflash : flash.length = 5000 := List.length_replicate
  have hlength : flash.length ≤ maxLength := by
    rw [hflash]
    decide
  obtain ⟨hvisits, -⟩ := scan_covers_boundaries v session hlength 1
  obtain ⟨-, -, -, hnone, -⟩ := scan_covers_boundaries v session hlength (2 ^ 64 - 1)
  have htwo : Visits flash.length (roundUp 1) [2048, 4096] := by
    rw [hflash]
    exact .next (by decide) (.next (by decide) (.done (by decide)))
  exact ⟨hlength, htwo.unique hvisits, (hnone (by decide)).2⟩

end SignedFlash
