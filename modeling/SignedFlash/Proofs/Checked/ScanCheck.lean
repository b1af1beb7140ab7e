import SignedFlash.Proofs.Checked.Verify
import SignedFlash.Proofs.Coverage
import SignedFlash.Proofs.Generated
import SignedFlash.Proofs.Reporting

/-!
# Scans of arbitrary bytes

A scan of any bytes goes through: nothing on the way stops it, and its reports have the properties
that are checked of them. There is a report for each boundary, those on a header or manifest lie in
the flash, and without known keys nothing is verified if only known keys count.
-/

namespace SignedFlash

/-! ## What a scan reports -/

namespace Verifier

variable (v : Verifier) (session : Session) {flash : Bytes}

theorem length_reports_scan (hlength : flash.length ≤ maxLength) :
    (v.scan session flash 0).reports.length = boundaryCount flash.length := by
  have h := congrArg List.length (v.offsets_scan session hlength 0)
  rwa [List.length_map, boundaries, List.length_map, List.length_range'] at h

theorem offset_of_getElem?_scan (hlength : flash.length ≤ maxLength) {i : Nat} {r : Report}
    (h : (v.scan session flash 0).reports[i]? = some r) : r.offset = alignment * i := by
  have hoffset : ((v.scan session flash 0).reports.map Report.offset)[i]? = some r.offset := by
    rw [List.getElem?_map, h, Option.map_some]
  rw [v.offsets_scan session hlength 0, boundaries, List.getElem?_map, Option.map_eq_some_iff]
    at hoffset
  obtain ⟨k, hk, hoffset⟩ := hoffset
  obtain ⟨_, rfl⟩ := List.getElem?_eq_some_iff.mp hk
  rw [← hoffset, List.getElem_range', show boundaryCount 0 = 0 from rfl, Nat.zero_add, Nat.one_mul]

-- A header or manifest that is found lies in the flash.
theorem inside_of_mem_scan {r : Report} (h : r ∈ (v.scan session flash 0).reports)
    (hcandidate : r.isCandidate = true) : r.offset + structureSize ≤ flash.length := by
  obtain ⟨current, hreport⟩ := v.exists_verifyCandidate_of_mem_scan h
  have hreports := v.reports_verifyCandidate current flash r.offset
  rw [← hreport] at hreports
  apply hreports.inside
  intro fault hskipped
  rw [Report.isCandidate, hskipped] at hcandidate
  exact Bool.false_ne_true hcandidate

-- Without known keys nothing is verified, if only known keys count.
theorem isVerified_of_mem_scan (hstrict : v.options.strictKeys = true)
    (hkeys : v.keys = KeyTable.empty) {r : Report} (h : r ∈ (v.scan session flash 0).reports) :
    r.isVerified = false := by
  obtain ⟨current, hreport⟩ := v.exists_verifyCandidate_of_mem_scan h
  rw [Bool.eq_false_iff]
  intro hverified
  rw [hreport, verifyCandidate] at hverified
  obtain ⟨image, hadmitted, -⟩ := (v.isVerified_verifySite_iff current _).mp hverified
  rcases (admitted?_of_eq_some_iff.mp hadmitted).1.known with hlenient | hknown
  · exact Bool.false_ne_true (hlenient.symm.trans hstrict)
  · rw [hkeys] at hknown
    exact Bool.false_ne_true hknown

end Verifier

/-! ## The check -/

namespace Checked

open ScanCheck

-- Checks that a header or manifest that was found lies in the flash.
def checkBounds (flash : Bytes) (r : Report) : Checked Unit := do
  if r.isCandidate then
    assert ((← addOffset r.offset structureSize) ≤ flash.length) .candidateBounds

-- Checks that nothing is verified by its signature if only known keys count.
def checkStrictKeys (options : Options) (r : Report) : Checked Unit :=
  if options.strictKeys then assert (!r.isVerified || r.warmBoot) .strictKeys else return ()

-- Checks what must hold of the report on boundary `i`.
def checkReport (options : Options) (flash : Bytes) (r : Report) (i : Nat) : Checked Unit := do
  assert (r.offset = (← mulOffset i alignment)) .reportOffset
  checkBounds flash r
  checkStrictKeys options r

-- Scans the flash in a byte string and checks the reports.
def run (source : RandomSource) : Bytes → Checked ScanCheck.Verdict
  | [] => return ⟨none, []⟩
  | bits :: flash => do
    let options := optionsOf bits
    let v : Verifier := ⟨options, KeyTable.empty, InfoBank.erased⟩
    let result ← scan v (Session.start source) flash 0
    assert (result.reports.length = boundaryCount flash.length) .reportCount
    forM result.reports.zipIdx fun report => checkReport options flash report.1 report.2
    return ⟨none, result.log⟩

/-- Whether the report on boundary `i` has what is checked of it. -/
structure Passes (options : Options) (flash : Bytes) (r : Report) (i : Nat) : Prop where
  offset : r.offset = alignment * i
  inside : r.isCandidate = true → r.offset + structureSize ≤ flash.length
  strict : options.strictKeys = true → r.isVerified = false

variable {options : Options} {flash : Bytes} {r : Report} {i : Nat}

theorem Passes.checkBounds_eq_ok (h : Passes options flash r i)
    (hlength : flash.length ≤ maxLength) : checkBounds flash r = .ok () := by
  unfold checkBounds
  cases hcandidate : r.isCandidate with
  | false => rfl
  | true =>
    have hinside := h.inside hcandidate
    have hsum : r.offset + structureSize ≤ maxOffset := by
      have hmax := maxLength_lt_maxOffset
      omega
    rw [if_pos rfl, addOffset_of_le hsum, ok_bind, assert_of (decide_eq_true hinside)]

theorem Passes.checkStrictKeys_eq_ok (h : Passes options flash r i) :
    checkStrictKeys options r = .ok () := by
  unfold checkStrictKeys
  cases hstrict : options.strictKeys with
  | false => rfl
  | true =>
    rw [if_pos rfl, assert_of]
    rw [h.strict hstrict]
    rfl

theorem Passes.checkReport_eq_ok (h : Passes options flash r i) (hlength : flash.length ≤ maxLength)
    (hi : alignment * i < flash.length) : checkReport options flash r i = .ok () := by
  rw [Nat.mul_comm] at hi
  have hproduct : i * alignment ≤ maxOffset := by
    have hmax := maxLength_lt_maxOffset
    omega
  have hoffset : decide (r.offset = i * alignment) = true :=
    decide_eq_true (h.offset.trans (Nat.mul_comm _ _))
  rw [checkReport, mulOffset_of_le hproduct, ok_bind, assert_of hoffset, ok_bind,
    h.checkBounds_eq_ok hlength, ok_bind, h.checkStrictKeys_eq_ok]

theorem Passes.violated?_eq_none (h : Passes options flash r i) :
    violated? options flash i r = none := by
  have hoffset : ¬r.offset ≠ i * alignment := not_not.mpr (h.offset.trans (Nat.mul_comm _ _))
  have hinside : ¬(r.isCandidate && decide (flash.length < r.offset + structureSize)) = true := by
    rw [Bool.and_eq_true, decide_eq_true_iff]
    rintro ⟨hcandidate, hpast⟩
    exact absurd (h.inside hcandidate) (Nat.not_le.mpr hpast)
  have hstrict : ¬(options.strictKeys && r.isVerified && !r.warmBoot) = true := by
    rw [Bool.and_eq_true, Bool.and_eq_true]
    rintro ⟨⟨hstrict, hverified⟩, -⟩
    exact Bool.false_ne_true ((h.strict hstrict).symm.trans hverified)
  rw [violated?, if_neg hoffset, if_neg hinside, if_neg hstrict]

-- If every report passes, none is reported to violate anything.
theorem firstViolation?_eq_none {reports : List Report}
    (hcount : reports.length = boundaryCount flash.length)
    (hreports : ∀ i r, reports[i]? = some r → Passes options flash r i) :
    firstViolation? options flash reports = none := by
  have hcount' : ¬reports.length ≠ (flash.length + (alignment - 1)) / alignment :=
    not_not.mpr hcount
  rw [firstViolation?, if_neg hcount', List.findSome?_eq_none_iff]
  intro violation hviolation
  obtain ⟨i, hi, rfl⟩ := List.mem_mapIdx.mp hviolation
  exact (hreports i _ (List.getElem?_eq_getElem hi)).violated?_eq_none

theorem forM_checkReport_eq_ok {reports : List Report} (hlength : flash.length ≤ maxLength)
    (hcount : reports.length = boundaryCount flash.length)
    (hreports : ∀ i r, reports[i]? = some r → Passes options flash r i) :
    forM reports.zipIdx (fun report => checkReport options flash report.1 report.2) = .ok () := by
  apply forM_eq_ok
  rintro ⟨r, i⟩ hmem
  have hreport : reports[i]? = some r := List.mem_zipIdx_iff_getElem?.mp hmem
  obtain ⟨hi, -⟩ := List.getElem?_eq_some_iff.mp hreport
  have hbelow : ¬flash.length ≤ alignment * i := by
    rw [← boundaryCount_le_iff]
    omega
  exact (hreports i r hreport).checkReport_eq_ok hlength (Nat.lt_of_not_le hbelow)

end Checked

/-! ## Arbitrary bytes -/

namespace ScanCheck

-- The reports on the flash behind an options byte.
def reports (source : RandomSource) (bits : UInt8) (flash : Bytes) : List Report :=
  let v : Verifier := ⟨optionsOf bits, KeyTable.empty, InfoBank.erased⟩
  (v.scan (Session.start source) flash 0).reports

variable (source : RandomSource) (bits : UInt8) {flash : Bytes}

theorem length_reports (hlength : flash.length ≤ maxLength) :
    (reports source bits flash).length = boundaryCount flash.length :=
  Verifier.length_reports_scan _ _ hlength

theorem passes_reports (hlength : flash.length ≤ maxLength) (i : Nat) (r : Report)
    (h : (reports source bits flash)[i]? = some r) :
    Checked.Passes (optionsOf bits) flash r i := by
  have hmem : r ∈ reports source bits flash := List.mem_of_getElem? h
  exact ⟨Verifier.offset_of_getElem?_scan _ _ hlength h, Verifier.inside_of_mem_scan _ _ hmem,
    fun hstrict => Verifier.isVerified_of_mem_scan _ _ hstrict rfl hmem⟩

theorem run_eq_ok (hlength : flash.length ≤ maxLength) :
    Checked.run source (bits :: flash) = .ok (run source (bits :: flash)) := by
  have hcount := length_reports source bits hlength
  have hpasses := passes_reports source bits hlength
  have hrun : run source (bits :: flash) = ⟨none, _⟩ :=
    congrArg (Verdict.mk · _) (Checked.firstViolation?_eq_none hcount hpasses)
  have hchecks := Checked.forM_checkReport_eq_ok hlength hcount hpasses
  dsimp only [reports] at hcount hchecks
  rw [hrun, Checked.run, Checked.scan_eq_ok _ _ hlength, Checked.ok_bind,
    Checked.assert_of (decide_eq_true hcount), Checked.ok_bind, hchecks, Checked.ok_bind,
    Checked.pure_eq_ok]

end ScanCheck

/-- The check of a scan goes through for every byte string, whatever the options and the random
numbers are: no index is outside its sequence, no sum, difference or product overflows, no loop goes
on for ever, and no assertion fails. There is one report for each boundary of the flash, in order.
Headers and manifests that are found lie in the flash. If only known keys count, nothing is
verified, since none is known. -/
theorem scan_check_never_fails (source : RandomSource) (data : Bytes)
    (hlength : data.length ≤ maxLength) :
    Checked.run source data = .ok (ScanCheck.run source data) ∧
      (ScanCheck.run source data).violation = none ∧
      ∀ bits flash, data = bits :: flash →
        (ScanCheck.reports source bits flash).length = (flash.length + 2047) / 2048 ∧
        ∀ i r, (ScanCheck.reports source bits flash)[i]? = some r →
          r.offset = 2048 * i ∧
          (r.isCandidate = true → r.offset + 1024 ≤ flash.length) ∧
          ((ScanCheck.optionsOf bits).strictKeys = true → r.isVerified = false) := by
  cases data with
  | nil => exact ⟨rfl, rfl, nofun⟩
  | cons bits flash =>
    have hflash : flash.length ≤ maxLength := Nat.le_of_succ_le hlength
    have hcount := ScanCheck.length_reports source bits hflash
    have hpasses := ScanCheck.passes_reports source bits hflash
    refine ⟨ScanCheck.run_eq_ok source bits hflash,
      Checked.firstViolation?_eq_none hcount hpasses, ?_⟩
    rintro _ _ ⟨⟩
    refine ⟨hcount, fun i r hr => ?_⟩
    obtain ⟨hoffset, hinside, hstrict⟩ := hpasses i r hr
    exact ⟨hoffset, hinside, hstrict⟩

-- An image with a valid signature is reported on, and not verified: its key is not known.
theorem scan_check_of_signed_image :
    let source : RandomSource := ⟨fun _ => 0⟩
    let data : Bytes := 8 :: sampleImage.bytes
    data.length ≤ maxLength ∧
      Checked.run source data = .ok (ScanCheck.run source data) ∧
      ∃ r, ScanCheck.reports source 8 sampleImage.bytes = [r] ∧ r.offset = 0 ∧
        r.isVerified = false := by
  intro source data
  have hlength : data.length ≤ maxLength := by
    rw [List.length_cons, length_sampleImage]
    decide
  obtain ⟨hrun, -, hreports⟩ := scan_check_never_fails source data hlength
  obtain ⟨hcount, hall⟩ := hreports 8 sampleImage.bytes rfl
  rw [length_sampleImage] at hcount
  obtain ⟨r, hr⟩ := List.length_eq_one_iff.mp hcount
  obtain ⟨hoffset, -, hstrict⟩ := hall 0 r (by rw [hr]; rfl)
  exact ⟨hlength, hrun, r, hr, hoffset, hstrict (by decide)⟩

end SignedFlash
