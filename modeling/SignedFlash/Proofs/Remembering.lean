import SignedFlash.Proofs.History

/-!
# What sessions remember

Of a session nothing shows but its ladder and the digest that it remembers: two sessions that agree
on these give the same reports, however they draw their random numbers. A signature that gives the
sentinel is accepted in all of them, and leaves the same digest behind in all of them.
-/

namespace SignedFlash

namespace SignedImage

/-- Whether the signature gives the sentinel, so that no session need remember anything. -/
def Unlocks (image : SignedImage) (skipHash : Bool) : Prop :=
  Sha256.digestWords (image.folded skipHash) = unlockSentinel

theorem unlocks_of_isCovered {image : SignedImage} {skipHash : Bool}
    (h : image.IsCovered skipHash) : image.Unlocks skipHash := by
  rw [Unlocks, (image.folded_eq_canonicalBuffer_iff skipHash).mpr h]
  exact digestWords_canonicalBuffer

end SignedImage

namespace Session

/-! ## Verdicts and what they rest on -/

variable {session : Session} {image : SignedImage} {skipHash : Bool}

theorem verdict_ne_refused_iff :
    session.verdict image skipHash ≠ .refused ↔
      (session.warmRegister image.hashes.final = unlockSentinel ∨
        session.warmBoot = some (session.warmRegister image.hashes.final)) ∨
      (image.Unlocks skipHash ∨
        session.warmBoot = some (Sha256.digestWords (image.folded skipHash))) := by
  rw [SignedImage.Unlocks, ← unlocked_eq_true_iff, ← unlocked_eq_true_iff]
  unfold verdict warmUnlock
  split
  · rename_i hwarm
    exact ⟨fun _ => Or.inl hwarm, fun _ => nofun⟩
  · rename_i hcold
    split
    · rename_i hsigned
      exact ⟨fun _ => Or.inr hsigned, fun _ => nofun⟩
    · rename_i hrefused
      exact ⟨fun h => absurd rfl h, fun h => (h.elim hcold hrefused).elim⟩

/-- Whether nothing that shows tells two sessions apart. -/
structure Agrees (s s' : Session) : Prop where
  ladder : s.ladder = s'.ladder
  warmBoot : s.warmBoot = s'.warmBoot

theorem Agrees.refl (s : Session) : s.Agrees s := ⟨rfl, rfl⟩

theorem Agrees.trans {s s' s'' : Session} (h : s.Agrees s') (h' : s'.Agrees s'') : s.Agrees s'' :=
  ⟨h.ladder.trans h'.ladder, h.warmBoot.trans h'.warmBoot⟩

theorem Agrees.warmRegister {s s' : Session} (h : s.Agrees s') (final : Digest) :
    s.warmRegister final = s'.warmRegister final := by
  rw [Session.warmRegister, Session.warmRegister, h.ladder]

theorem Agrees.verdict {s s' : Session} (h : s.Agrees s') (image : SignedImage)
    (skipHash : Bool) : s.verdict image skipHash = s'.verdict image skipHash := by
  unfold Session.verdict Session.warmUnlock Session.unlocked
  rw [h.warmBoot, h.warmRegister]

end Session

/-! ## Steps and runs in sessions that agree -/

namespace Task

/-- The image whose signature is looked at. -/
def image? (task : Task) : Option SignedImage := task.verifier.admitted? task.site

/-- Whether wrong digests are ignored. -/
def skipHash (task : Task) : Bool := task.verifier.options.skipHashChecking

end Task

namespace Step

variable {step : Step} {image : SignedImage}

/-- An image whose signature gives the sentinel is the one remembered afterwards. -/
theorem next_warmBoot_of_unlocks (himage : step.image? = some image)
    (hunlocks : image.Unlocks step.skipHash)
    (hregister : step.session.warmRegister image.hashes.final ≠ unlockSentinel) :
    step.next.warmBoot = some (step.session.warmRegister image.hashes.final) := by
  have haccepted : step.session.verdict image step.skipHash ≠ .refused :=
    Session.verdict_ne_refused_iff.mpr (Or.inr (Or.inl hunlocks))
  rw [next_warmBoot himage]
  cases hverdict : step.session.verdict image step.skipHash with
  | refused => exact absurd hverdict haccepted
  | signed => exact if_pos rfl
  | warm =>
    rw [if_neg nofun]
    exact ((step.session.verdict_eq_warm_iff image _).mp hverdict).resolve_left hregister

/-- An image that its signature covers is accepted and remembered, whatever the session is. -/
theorem accepted_of_isCovered (himage : step.image? = some image)
    (hcovered : image.IsCovered step.skipHash)
    (hregister : step.session.warmRegister image.hashes.final ≠ unlockSentinel) :
    step.report.isVerified = true ∧
      step.next.warmBoot = some (step.session.warmRegister image.hashes.final) :=
  ⟨isVerified_report_iff.mpr
      ⟨image, himage, step.session.verdict_ne_refused_of_isCovered image _ hcovered⟩,
    next_warmBoot_of_unlocks himage (SignedImage.unlocks_of_isCovered hcovered) hregister⟩

section Twins

-- Steps in which the same is done.
variable {step' : Step}

theorem image?_eq_of_task_eq (htask : step'.task = step.task) : step'.image? = step.image? := by
  rw [image?, image?, htask]

theorem skipHash_eq_of_task_eq (htask : step'.task = step.task) :
    step'.skipHash = step.skipHash := by
  rw [skipHash, skipHash, htask]

-- Where no signature is looked at the session does not show in the report.
theorem report_eq_of_image?_eq_none (htask : step'.task = step.task) (h : step.image? = none) :
    step'.report = step.report := by
  obtain ⟨report, log, hunmoved, -⟩ := step.task.verifier.unmoved_of_not_admitted h
  rw [Step.report, Step.report, verification, verification, htask, hunmoved, hunmoved]

theorem agrees_next (htask : step'.task = step.task) (h : step'.session.Agrees step.session) :
    step'.next.Agrees step.next := by
  have himage' := image?_eq_of_task_eq htask
  constructor
  · rw [next_ladder, next_ladder]
    exact h.ladder
  · cases himage : step.image? with
    | none =>
      rw [next_of_image?_eq_none himage, next_of_image?_eq_none (himage'.trans himage)]
      exact h.warmBoot
    | some image =>
      rw [next_warmBoot himage, next_warmBoot (himage'.trans himage), h.verdict, h.warmRegister,
        h.warmBoot, skipHash_eq_of_task_eq htask]

theorem report_eq_of_agrees (htask : step'.task = step.task)
    (h : step'.session.Agrees step.session) : step'.report = step.report := by
  cases himage : step.image? with
  | none => exact report_eq_of_image?_eq_none htask himage
  | some image =>
    rw [report_of_image? himage, report_of_image? ((image?_eq_of_task_eq htask).trans himage),
      h.verdict, skipHash_eq_of_task_eq htask, htask]

end Twins

end Step

namespace Session

/-- Sessions that agree give the same reports, and agree afterwards. -/
theorem Agrees.run {s s' : Session} (h : s.Agrees s') (tasks : List Task) :
    (s.steps tasks).map Step.report = (s'.steps tasks).map Step.report ∧
      (s.after tasks).Agrees (s'.after tasks) := by
  induction tasks generalizing s s' with
  | nil => exact ⟨rfl, h⟩
  | cons task tasks ih =>
    have hnext : (Step.next ⟨task, s⟩).Agrees (Step.next ⟨task, s'⟩) := Step.agrees_next rfl h
    have hreport : Step.report ⟨task, s⟩ = Step.report ⟨task, s'⟩ := Step.report_eq_of_agrees rfl h
    obtain ⟨hreports, hafter⟩ := ih hnext
    refine ⟨?_, hafter⟩
    rw [steps, steps, List.map_cons, List.map_cons, hreports, hreport]

theorem Agrees.perform {s s' : Session} (h : s.Agrees s') (call : Call) :
    (s.perform call).1 = (s'.perform call).1 ∧
      (s.perform call).2.Agrees (s'.perform call).2 := by
  rw [perform_eq, perform_eq]
  exact h.run call.tasks

end Session

end SignedFlash
