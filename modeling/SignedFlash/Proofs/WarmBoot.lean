import SignedFlash.Proofs.Admission
import SignedFlash.Proofs.History

/-!
# The image accepted last

A session takes nothing from one verification to the next but its ladder, which never changes, and
one digest. The digest is that of the last image which was accepted by its signature. An image with
this digest is accepted again without its signature, once it passed all other rules, and leaves the
session as it is. So does everything else that is verified.
-/

namespace SignedFlash

/-- Whether a report accepts an image by its signature. -/
structure Report.AcceptsSignature (r : Report) : Prop where
  isVerified : r.isVerified = true
  -- not because of an image before it
  bySignature : r.warmBoot = false

/-! ## One step -/

namespace Step

variable {step : Step} {image : SignedImage}

theorem acceptsSignature_report_iff (himage : step.image? = some image) :
    step.report.AcceptsSignature ↔ step.session.verdict image step.skipHash = .signed := by
  rw [report_of_image? himage]
  constructor
  · rintro ⟨hverified, hwarm⟩
    rw [Verifier.isVerified_verdictReport] at hverified
    cases hverdict : step.session.verdict image step.skipHash with
    | warm =>
      rw [hverdict] at hwarm
      exact nomatch hwarm
    | signed => rfl
    | refused => exact absurd hverdict hverified
  · intro hverdict
    rw [hverdict]
    exact ⟨rfl, rfl⟩

-- An image that is accepted by its signature is the one remembered from then on.
theorem next_warmBoot_of_acceptsSignature (h : step.report.AcceptsSignature) :
    ∃ image, step.image? = some image ∧
      step.next.warmBoot = some (step.session.warmRegister image.hashes.final) := by
  obtain ⟨image, himage, -⟩ := isVerified_report_iff.mp h.isVerified
  refine ⟨image, himage, ?_⟩
  rw [next_warmBoot himage, if_pos ((acceptsSignature_report_iff himage).mp h)]

-- Whatever else happens leaves the session's memory alone.
theorem next_warmBoot_of_not_acceptsSignature (h : ¬step.report.AcceptsSignature) :
    step.next.warmBoot = step.session.warmBoot := by
  cases himage : step.image? with
  | none => rw [next_of_image?_eq_none himage]
  | some image =>
    rw [acceptsSignature_report_iff himage] at h
    rw [next_warmBoot himage, if_neg h]

theorem warmBoot_report_iff :
    step.report.warmBoot = true ↔
      ∃ image, step.image? = some image ∧
        (step.session.warmRegister image.hashes.final = unlockSentinel ∨
          step.session.warmBoot = some (step.session.warmRegister image.hashes.final)) := by
  cases himage : step.image? with
  | none =>
    obtain ⟨report, log, hunmoved, hsilent⟩ :=
      step.task.verifier.unmoved_of_not_admitted himage
    rw [Step.report, verification, hunmoved]
    simp [hsilent.warmBoot]
  | some image =>
    have hwarm : step.report.warmBoot = true ↔
        step.session.verdict image step.skipHash = .warm := by
      rw [report_of_image? himage]
      exact beq_iff_eq
    rw [hwarm, Session.verdict_eq_warm_iff]
    simp

end Step

/-! ## Runs -/

/-- Whether a session remembers the image that was accepted last by its signature in the given steps
or, if there is none, what was remembered at first. -/
def RemembersLast (initial : Option Digest) (past : List Step) (session : Session) : Prop :=
  ((∀ step ∈ past, ¬step.report.AcceptsSignature) ∧ session.warmBoot = initial) ∨
    ∃ before step after image, past = before ++ step :: after ∧ step.report.AcceptsSignature ∧
      (∀ later ∈ after, ¬later.report.AcceptsSignature) ∧ step.image? = some image ∧
      session.warmBoot = some (session.warmRegister image.hashes.final)

theorem remembersLast_next {initial : Option Digest} {past : List Step} {step : Step}
    (h : RemembersLast initial past step.session) :
    RemembersLast initial (past ++ [step]) step.next := by
  have hregister (final : Digest) :
      step.next.warmRegister final = step.session.warmRegister final := by
    rw [Session.warmRegister, Session.warmRegister, Step.next_ladder]
  by_cases haccepts : step.report.AcceptsSignature
  · obtain ⟨image, himage, hwarm⟩ := Step.next_warmBoot_of_acceptsSignature haccepts
    refine Or.inr ⟨past, step, [], image, rfl, haccepts, by simp, himage, ?_⟩
    rw [hwarm, hregister]
  · have hwarm := Step.next_warmBoot_of_not_acceptsSignature haccepts
    rcases h with ⟨hnone, hinitial⟩ |
      ⟨before, last, after, image, rfl, hlast, hafter, himage, hdigest⟩
    · left
      refine ⟨?_, hwarm.trans hinitial⟩
      simpa using fun s hs => hs.elim (hnone s) (fun h => h ▸ haccepts)
    · right
      refine ⟨before, last, after ++ [step], image, by simp, hlast, ?_, himage, ?_⟩
      · simpa using fun s hs => hs.elim (hafter s) (fun h => h ▸ haccepts)
      · rw [hwarm, hdigest, hregister]

theorem remembersLast_after (session : Session) (calls : List Call) :
    RemembersLast session.warmBoot (session.history calls) (session.performAll calls).2 := by
  have hstart : RemembersLast session.warmBoot [] session := Or.inl ⟨by simp, rfl⟩
  rw [(session.performAll_eq calls).2]
  exact Session.inv_after (fun _ _ _ h => remembersLast_next h) hstart

namespace Session

-- Scans, too, verify nothing but sites of their buffers.
theorem exists_site_of_mem_history {session : Session} {calls : List Call} {step : Step}
    (h : step ∈ session.history calls) : ∃ buf offset, step.task.site = Site.of buf offset := by
  have hmem : step.task ∈ calls.flatMap Call.tasks := by
    rw [← session.map_task_steps (calls.flatMap Call.tasks)]
    exact List.mem_map_of_mem h
  obtain ⟨call, -, htask⟩ := List.mem_flatMap.mp hmem
  cases call with
  | scan v buf start =>
    obtain ⟨site, hsite, htask⟩ := List.mem_map.mp htask
    rw [← htask]
    exact ⟨buf, site.offset, eq_of_mem_sites hsite⟩
  | candidate v buf offset =>
    rw [List.mem_singleton.mp htask]
    exact ⟨buf, offset, rfl⟩

end Session

/-- A verification keeps the ladder, and changes the digest that the session remembers only if it
accepts an image by its signature; it accepts one without its signature exactly if the image passes
all other rules and its digest is known. So after any calls the session remembers the image accepted
last by its signature. -/
theorem remembers_last_accepted (session : Session) :
    (∀ (v : Verifier) (buf : Bytes) (offset : Nat),
      let result := v.verifyCandidate session buf offset
      result.session.ladder = session.ladder ∧
        (result.report.AcceptsSignature → ∃ h hashes, v.IsAdmitted buf offset h hashes ∧
          result.session.warmBoot = some (hashes.final.xor session.ladder)) ∧
        (¬result.report.AcceptsSignature → result.session.warmBoot = session.warmBoot) ∧
        (result.report.warmBoot = true ↔ ∃ h hashes, v.IsAdmitted buf offset h hashes ∧
          (hashes.final.xor session.ladder = unlockSentinel ∨
            session.warmBoot = some (hashes.final.xor session.ladder)))) ∧
      ∀ calls : List Call,
        let history := session.history calls
        let last := (session.performAll calls).2
        (session.performAll calls).1.flatten = history.map Step.report ∧
          last.ladder = session.ladder ∧
          (((∀ step ∈ history, ¬step.report.AcceptsSignature) ∧
              last.warmBoot = session.warmBoot) ∨
            ∃ past step rest, history = past ++ step :: rest ∧ step.report.AcceptsSignature ∧
              (∀ later ∈ rest, ¬later.report.AcceptsSignature) ∧
              ∃ buf offset h hashes, step.task.site = Site.of buf offset ∧
                step.task.verifier.IsAdmitted buf offset h hashes ∧
                last.warmBoot = some (hashes.final.xor session.ladder)) := by
  constructor
  · intro v buf offset result
    let step : Step := ⟨⟨v, Site.of buf offset⟩, session⟩
    have hreport : result.report = step.report := rfl
    have hnext : result.session = step.next := rfl
    rw [hreport, hnext, Verifier.exists_isAdmitted_iff, Verifier.exists_isAdmitted_iff]
    exact ⟨Step.next_ladder, Step.next_warmBoot_of_acceptsSignature,
      Step.next_warmBoot_of_not_acceptsSignature, Step.warmBoot_report_iff⟩
  · intro calls history last
    obtain ⟨hreports, hlast⟩ := session.performAll_eq calls
    have hladder : last.ladder = session.ladder := by
      show (session.performAll calls).2.ladder = session.ladder
      rw [hlast, Session.ladder_after]
    refine ⟨hreports, hladder, ?_⟩
    rcases remembersLast_after session calls with hnone |
      ⟨past, step, rest, image, hsplit, haccepts, hrest, himage, hdigest⟩
    · exact Or.inl hnone
    · right
      have hmem : step ∈ history := by
        rw [show history = past ++ step :: rest from hsplit]
        simp
      obtain ⟨buf, offset, hsite⟩ := Session.exists_site_of_mem_history hmem
      rw [Step.image?, hsite] at himage
      refine ⟨past, step, rest, hsplit, haccepts, hrest, buf, offset, image.header, image.hashes,
        hsite, (Verifier.admitted?_of_eq_some_iff.mp himage).1, ?_⟩
      rw [hdigest, Session.warmRegister, hladder]

end SignedFlash
