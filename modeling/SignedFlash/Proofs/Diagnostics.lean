import SignedFlash.Proofs.History

/-!
# Diagnosis

A verifier can be told to report digests and folded buffers. That adds to its reports and to the
log, and changes neither a verdict nor the session: the rules by which an image is judged do not
look at these two options.
-/

namespace SignedFlash

/-- What a report says but for its diagnosis. -/
def Report.withoutDiagnosis (r : Report) : Report :=
  { r with diagnostics := none, debugBuffer := none }

/-- Whether two verifications differ in their diagnosis and their log at most. -/
structure Verification.SameVerdict (a b : Verification) : Prop where
  report : a.report.withoutDiagnosis = b.report.withoutDiagnosis
  session : a.session = b.session

namespace Verifier

/-- Whether two verifiers judge images by the same rules. -/
structure SameRules (v v' : Verifier) : Prop where
  skipHashChecking : v.options.skipHashChecking = v'.options.skipHashChecking
  strictKeys : v.options.strictKeys = v'.options.strictKeys
  keys : v.keys = v'.keys
  info : v.info = v'.info

/-- The verifier with the two options for diagnosis set. -/
def withDiagnosis (v : Verifier) (verbose debugBuffer : Bool) : Verifier :=
  { v with options := { v.options with verbose := verbose, debugBuffer := debugBuffer } }

variable {v v' : Verifier}

/-! ## One verification -/

theorem SameRules.verifySigned (h : v.SameRules v') (session : Session) (hd : Header)
    (hashes : HashChain) (key : PublicKey) {r r' : Report}
    (hr : r.withoutDiagnosis = r'.withoutDiagnosis) (log log' : List LogLine) :
    (v.verifySigned session hd hashes key r log).SameVerdict
      (v'.verifySigned session hd hashes key r' log') := by
  simp only [Report.withoutDiagnosis, Report.mk.injEq] at hr
  unfold Verifier.verifySigned
  rw [h.skipHashChecking]
  by_cases hwarm : session.warmUnlock hashes.final = true
  · simp only [hwarm, if_true]
    constructor <;> simp [Report.withoutDiagnosis, hr]
  · simp only [hwarm]
    -- whether the buffer is shown, the signature decides
    by_cases hunlocked : (session.verifySignature key hd.signature hashes.final
        v'.options.skipHashChecking).unlocked = true
    · simp only [hunlocked, if_true]
      constructor <;> simp [Report.withoutDiagnosis, hr]
    · simp only [hunlocked]
      constructor <;> simp [Report.withoutDiagnosis, hr]

theorem SameRules.verifyHashed (h : v.SameRules v') (session : Session) (hd : Header)
    (hashes : HashChain) {r r' : Report} (hr : r.withoutDiagnosis = r'.withoutDiagnosis)
    (log log' : List LogLine) :
    (v.verifyHashed session hd hashes r log).SameVerdict
      (v'.verifyHashed session hd hashes r' log') := by
  have hfields := hr
  simp only [Report.withoutDiagnosis, Report.mk.injEq] at hfields
  have hsource (source : KeySource) :
      { r with keySource := some source }.withoutDiagnosis =
        { r' with keySource := some source }.withoutDiagnosis := by
    simp [Report.withoutDiagnosis, hfields]
  unfold Verifier.verifyHashed
  rw [h.keys, h.strictKeys]
  by_cases hunknown : (v'.keys.resolve hd).source.isUnverified = true
  · by_cases hstrict : v'.options.strictKeys = true
    · simp only [hunknown, hstrict, if_true]
      constructor <;> simp [Report.withoutDiagnosis, hfields]
    · simp only [hunknown, hstrict, if_true]
      exact h.verifySigned session hd hashes _ (hsource _) _ _
  · simp only [hunknown]
    exact h.verifySigned session hd hashes _ (hsource _) _ _

theorem SameRules.verifyHeader (h : v.SameRules v') (session : Session) (site : Site)
    (family : Family) (hd : Header) :
    (v.verifyHeader session site family hd).SameVerdict
      (v'.verifyHeader session site family hd) := by
  unfold Verifier.verifyHeader
  rw [h.info, h.skipHashChecking]
  cases site.bytes.first? hd.imageSize.toNat with
  | none => exact ⟨rfl, rfl⟩
  | some image =>
    simp only
    cases HashChain.compute v'.info hd image with
    | error fault => exact ⟨rfl, rfl⟩
    | ok hashes =>
      simp only
      cases hashes.check hd with
      | ok _ =>
        apply h.verifyHashed
        rfl
      | error fault =>
        by_cases hskip : v'.options.skipHashChecking = true
        · simp only [hskip, if_true]
          apply h.verifyHashed
          rfl
        · simp only [hskip]
          exact ⟨rfl, rfl⟩

/-- Verifiers with the same rules give the same verdict at a site, and leave the same session. -/
theorem SameRules.verifySite (h : v.SameRules v') (session : Session) (site : Site) :
    (v.verifySite session site).SameVerdict (v'.verifySite session site) := by
  unfold Verifier.verifySite
  cases site.candidate with
  | error fault => exact ⟨rfl, rfl⟩
  | ok candidate =>
    cases candidate with
    | manifest m => exact ⟨rfl, rfl⟩
    | header hd =>
      simp only
      cases hd.family? with
      | none => exact ⟨rfl, rfl⟩
      | some family => exact h.verifyHeader session site family hd

/-! ## Scans -/

theorem SameRules.verifyAll (h : v.SameRules v') (session : Session) (sites : List Site) :
    (v.verifyAll session sites).reports.map Report.withoutDiagnosis =
        (v'.verifyAll session sites).reports.map Report.withoutDiagnosis ∧
      (v.verifyAll session sites).session = (v'.verifyAll session sites).session := by
  -- on the sites left, which both verify in the session that the site before left
  induction sites generalizing session with
  | nil => exact ⟨rfl, rfl⟩
  | cons site sites ih =>
    have hsite := h.verifySite session site
    have hrest := ih (v.verifySite session site).session
    simp only [Verifier.verifyAll, List.map_cons]
    rw [hrest.1, hrest.2, hsite.report, hsite.session]
    exact ⟨rfl, rfl⟩

end Verifier

/-- Whatever a verifier is told to report for diagnosis, its scan gives the same reports but for
their diagnosis, and leaves the same session. -/
theorem verdicts_ignore_diagnosis (v : Verifier) (verbose debugBuffer verbose' debugBuffer' : Bool)
    (session : Session) (buf : Bytes) (start : Nat) :
    let result := (v.withDiagnosis verbose debugBuffer).scan session buf start
    let result' := (v.withDiagnosis verbose' debugBuffer').scan session buf start
    result.reports.map Report.withoutDiagnosis = result'.reports.map Report.withoutDiagnosis ∧
      result.session.ladder = result'.session.ladder ∧
      result.session.warmBoot = result'.session.warmBoot := by
  intro result result'
  have hrules : (v.withDiagnosis verbose debugBuffer).SameRules
      (v.withDiagnosis verbose' debugBuffer') := ⟨rfl, rfl, rfl, rfl⟩
  have hscan := hrules.verifyAll session (sites buf start)
  have hsession : result.session = result'.session := hscan.2
  rw [hsession]
  exact ⟨hscan.1, rfl, rfl⟩

end SignedFlash
