import SignedFlash.Proofs.Verdict
import SignedFlash.Scan

/-!
# Histories

Scans and single verifications come down to the same thing: one site is verified after the other, in
one session. The history of a run lists these steps, each with the session in which it is done. What
every step keeps therefore holds throughout the run.
-/

namespace SignedFlash

/-- A site to verify. -/
structure Task where
  verifier : Verifier
  site : Site

/-- A site that is verified in a session. -/
structure Step where
  task : Task
  -- The session before.
  session : Session

namespace Step

variable (step : Step)

def verification : Verification := step.task.verifier.verifySite step.session step.task.site

def report : Report := step.verification.report

/-- The session after. -/
def next : Session := step.verification.session

/-- Whether wrong digests are ignored. -/
def skipHash : Bool := step.task.verifier.options.skipHashChecking

/-- The image whose signature is looked at. -/
def image? : Option SignedImage := step.task.verifier.admitted? step.task.site

/-- The register value of that image. -/
def register? : Option Digest := step.image?.map fun image =>
  step.session.warmRegister image.hashes.final

/-- The buffer that is folded, unless the image is accepted without its signature. -/
def folded? : Option Number := step.image?.bind fun image =>
  if step.session.warmUnlock image.hashes.final then none
  else some (step.session.recover image.resolved.key image.header.signature image.hashes.final
    step.skipHash).1

/-! ## One step -/

variable {step}

theorem next_of_image?_eq_none (h : step.image? = none) : step.next = step.session := by
  obtain ⟨report, log, hunmoved, -⟩ := step.task.verifier.unmoved_of_not_admitted h
  rw [next, verification, hunmoved]

theorem report_of_image? {image : SignedImage} (h : step.image? = some image) :
    step.report = step.task.verifier.verdictReport step.task.site.offset image
      (step.session.verdict image step.skipHash) :=
  (step.task.verifier.verifySite_of_admitted h step.session).1

theorem offset_report : step.report.offset = step.task.site.offset :=
  step.task.verifier.offset_verifySite step.session step.task.site

theorem next_ladder : step.next.ladder = step.session.ladder := by
  cases h : step.image? with
  | none => rw [next_of_image?_eq_none h]
  | some image => exact (step.task.verifier.verifySite_of_admitted h step.session).2.1

theorem next_warmBoot {image : SignedImage} (h : step.image? = some image) :
    step.next.warmBoot =
      if step.session.verdict image step.skipHash = .signed then
        some (step.session.warmRegister image.hashes.final)
      else step.session.warmBoot :=
  (step.task.verifier.verifySite_of_admitted h step.session).2.2

theorem isVerified_report_iff :
    step.report.isVerified = true ↔
      ∃ image, step.image? = some image ∧ step.session.verdict image step.skipHash ≠ .refused :=
  step.task.verifier.isVerified_verifySite_iff step.session step.task.site

theorem folded?_eq_some_iff {buffer : Number} :
    step.folded? = some buffer ↔
      ∃ image, step.image? = some image ∧ step.session.warmUnlock image.hashes.final = false ∧
        image.folded step.skipHash = buffer := by
  unfold folded?
  rw [Option.bind_eq_some_iff]
  refine exists_congr fun image => and_congr_right fun _ => ?_
  rw [Session.recover_fst]
  cases step.session.warmUnlock image.hashes.final with
  | true => exact ⟨nofun, nofun⟩
  | false => exact ⟨fun h => ⟨rfl, Option.some.inj h⟩, fun h => congrArg some h.2⟩

theorem folded?_of_isCovered {image : SignedImage} (himage : step.image? = some image)
    (hcovered : image.IsCovered step.skipHash) {buffer : Number}
    (h : step.folded? = some buffer) : buffer = canonicalBuffer := by
  obtain ⟨image', himage', -, rfl⟩ := folded?_eq_some_iff.mp h
  obtain rfl := Option.some.inj (himage.symm.trans himage')
  exact (image.folded_eq_canonicalBuffer_iff _).mpr hcovered

-- After an image was accepted, its digest is enough.
theorem warmUnlock_next {image : SignedImage} (himage : step.image? = some image)
    (hverdict : step.session.verdict image step.skipHash ≠ .refused) :
    step.next.warmUnlock image.hashes.final = true := by
  have hregister : step.next.warmRegister image.hashes.final =
      step.session.warmRegister image.hashes.final := by
    rw [Session.warmRegister, Session.warmRegister, next_ladder]
  have hnext := next_warmBoot himage
  rw [Session.warmUnlock, Session.unlocked_eq_true_iff, hregister, hnext]
  cases hcase : step.session.verdict image step.skipHash with
  | refused => exact absurd hcase hverdict
  | signed => exact Or.inr (if_pos rfl)
  | warm =>
    rw [if_neg nofun]
    exact (step.session.verdict_eq_warm_iff image _).mp hcase

end Step

/-! ## Runs -/

namespace Session

/-- The steps in which tasks are done. -/
def steps (session : Session) : List Task → List Step
  | [] => []
  | task :: tasks => ⟨task, session⟩ :: steps (Step.next ⟨task, session⟩) tasks

/-- The session in which tasks were done. -/
def after (session : Session) : List Task → Session
  | [] => session
  | task :: tasks => after (Step.next ⟨task, session⟩) tasks

theorem steps_append (session : Session) (tasks tasks' : List Task) :
    session.steps (tasks ++ tasks') =
      session.steps tasks ++ (session.after tasks).steps tasks' := by
  induction tasks generalizing session with
  | nil => rfl
  | cons task tasks ih => exact congrArg _ (ih _)

theorem after_append (session : Session) (tasks tasks' : List Task) :
    session.after (tasks ++ tasks') = (session.after tasks).after tasks' := by
  induction tasks generalizing session with
  | nil => rfl
  | cons task tasks ih => exact ih _

theorem map_task_steps (session : Session) (tasks : List Task) :
    (session.steps tasks).map Step.task = tasks := by
  induction tasks generalizing session with
  | nil => rfl
  | cons task tasks ih => exact congrArg _ (ih _)

-- A step of a run is done in the session in which those before it were done.
theorem steps_eq_append_cons {session : Session} {tasks : List Task} {past rest : List Step}
    {step : Step} (h : session.steps tasks = past ++ step :: rest) :
    ∃ before after, tasks = before ++ step.task :: after ∧ past = session.steps before ∧
      step.session = session.after before := by
  -- on the steps before, each of which takes one task
  induction past generalizing session tasks with
  | nil =>
    cases tasks with
    | nil => exact nomatch h
    | cons task tasks =>
      obtain ⟨rfl, -⟩ := List.cons.inj h
      exact ⟨[], tasks, rfl, rfl, rfl⟩
  | cons first past ih =>
    cases tasks with
    | nil => exact nomatch h
    | cons task tasks =>
      obtain ⟨rfl, hrest⟩ := List.cons.inj h
      obtain ⟨before, after, rfl, rfl, hsession⟩ := ih hrest
      exact ⟨task :: before, after, rfl, rfl, hsession⟩

-- What holds at first and is kept by every step holds at the end.
theorem inv_after {inv : List Step → Session → Prop} {session : Session} {tasks : List Task}
    (hstep : ∀ past step, step ∈ session.steps tasks → inv past step.session →
      inv (past ++ [step]) step.next)
    {done : List Step} (hstart : inv done session) :
    inv (done ++ session.steps tasks) (session.after tasks) := by
  -- on the tasks left; what was done grows by one step with each
  induction tasks generalizing session done with
  | nil => rwa [steps, List.append_nil]
  | cons task tasks ih =>
    have hnext := hstep done ⟨task, session⟩ List.mem_cons_self hstart
    rw [steps, ← List.singleton_append, ← List.append_assoc]
    exact ih (fun past step hmem => hstep past step (List.mem_cons_of_mem _ hmem)) hnext

/-- What holds at first and is kept by every step holds before every step. -/
theorem inv_of_steps_eq {inv : List Step → Session → Prop} {session : Session} {tasks : List Task}
    (hstart : inv [] session)
    (hstep : ∀ past step, step ∈ session.steps tasks → inv past step.session →
      inv (past ++ [step]) step.next)
    {past rest : List Step} {step : Step} (h : session.steps tasks = past ++ step :: rest) :
    inv past step.session := by
  obtain ⟨before, after, rfl, rfl, hsession⟩ := steps_eq_append_cons h
  rw [hsession, ← List.nil_append (session.steps before)]
  -- the steps before are a run of their own, in which every step is one of the whole run
  refine inv_after (fun past step hmem => hstep past step ?_) hstart
  rw [steps_append]
  exact List.mem_append_left _ hmem

theorem ladder_after (session : Session) (tasks : List Task) :
    (session.after tasks).ladder = session.ladder := by
  induction tasks generalizing session with
  | nil => rfl
  | cons task tasks ih => exact (ih _).trans Step.next_ladder

theorem ladder_of_mem_steps {session : Session} {tasks : List Task} {step : Step}
    (h : step ∈ session.steps tasks) : step.session.ladder = session.ladder := by
  obtain ⟨past, rest, hsplit⟩ := List.append_of_mem h
  let inv (_ : List Step) (session' : Session) : Prop := session'.ladder = session.ladder
  have hinv : inv past step.session :=
    inv_of_steps_eq rfl (fun _ _ _ hladder => Step.next_ladder.trans hladder) hsplit
  exact hinv

end Session

/-! ## Calls -/

/-- A call of a verifier. -/
inductive Call where
  -- Scans a buffer from a start offset on.
  | scan (v : Verifier) (buf : Bytes) (start : Nat)
  -- Verifies the candidate at an offset of a buffer.
  | candidate (v : Verifier) (buf : Bytes) (offset : Nat)

namespace Call

def verifier : Call → Verifier
  | .scan v _ _ => v
  | .candidate v _ _ => v

/-- The sites that a call verifies. -/
def tasks : Call → List Task
  | .scan v buf start => (sites buf start).map (Task.mk v)
  | .candidate v buf offset => [⟨v, Site.of buf offset⟩]

theorem verifier_of_mem_tasks {call : Call} {task : Task} (h : task ∈ call.tasks) :
    task.verifier = call.verifier := by
  cases call with
  | scan v buf start =>
    obtain ⟨site, -, rfl⟩ := List.mem_map.mp h
    rfl
  | candidate v buf offset => rw [List.mem_singleton.mp h, verifier]

end Call

namespace Session

/-- The reports that a call gives, and the session afterwards. -/
def perform (session : Session) : Call → List Report × Session
  | .scan v buf start =>
    let result := v.scan session buf start
    (result.reports, result.session)
  | .candidate v buf offset =>
    let result := v.verifyCandidate session buf offset
    ([result.report], result.session)

/-- The reports that calls give, call by call, and the session afterwards. -/
def performAll (session : Session) : List Call → List (List Report) × Session
  | [] => ([], session)
  | call :: calls =>
    let first := session.perform call
    let rest := performAll first.2 calls
    (first.1 :: rest.1, rest.2)

/-- The steps of a run. -/
def history (session : Session) (calls : List Call) : List Step :=
  session.steps (calls.flatMap Call.tasks)

theorem history_singleton (session : Session) (call : Call) :
    session.history [call] = session.steps call.tasks := by
  rw [history, List.flatMap_cons, List.flatMap_nil, List.append_nil]

theorem verifyAll_eq (v : Verifier) (session : Session) (sites : List Site) :
    (v.verifyAll session sites).reports =
        (session.steps (sites.map (Task.mk v))).map Step.report ∧
      (v.verifyAll session sites).session = session.after (sites.map (Task.mk v)) := by
  induction sites generalizing session with
  | nil => exact ⟨rfl, rfl⟩
  | cons site sites ih =>
    obtain ⟨hreports, hsession⟩ := ih (v.verifySite session site).session
    exact ⟨congrArg _ hreports, hsession⟩

theorem perform_eq (session : Session) (call : Call) :
    session.perform call =
      ((session.steps call.tasks).map Step.report, session.after call.tasks) := by
  cases call with
  | scan v buf start =>
    obtain ⟨hreports, hsession⟩ := verifyAll_eq v session (sites buf start)
    exact Prod.ext hreports hsession
  | candidate v buf offset => rfl

-- The calls of a run give the reports of its steps.
theorem performAll_eq (session : Session) (calls : List Call) :
    (session.performAll calls).1.flatten = (session.history calls).map Step.report ∧
      (session.performAll calls).2 = session.after (calls.flatMap Call.tasks) := by
  induction calls generalizing session with
  | nil => exact ⟨rfl, rfl⟩
  | cons call calls ih =>
    obtain ⟨hreports, hsession⟩ := ih (session.after call.tasks)
    rw [performAll, perform_eq, history, List.flatMap_cons, steps_append, after_append,
      List.map_append, List.flatten_cons, hreports, hsession]
    exact ⟨rfl, rfl⟩

theorem verifier_of_mem_history {session : Session} {calls : List Call} {step : Step}
    (h : step ∈ session.history calls) : ∃ call ∈ calls, step.task.verifier = call.verifier := by
  have hmem : step.task ∈ calls.flatMap Call.tasks := by
    rw [← session.map_task_steps (calls.flatMap Call.tasks)]
    exact List.mem_map_of_mem h
  obtain ⟨call, hcall, htask⟩ := List.mem_flatMap.mp hmem
  exact ⟨call, hcall, Call.verifier_of_mem_tasks htask⟩

end Session

/-! ## Sites by number -/

namespace Session

variable (session : Session)

theorem getElem?_steps (tasks : List Task) (k : Nat) :
    (session.steps tasks)[k]? =
      tasks[k]?.map fun task => ⟨task, session.after (tasks.take k)⟩ := by
  induction tasks generalizing session k with
  | nil => rfl
  | cons task tasks ih =>
    cases k with
    | zero => rfl
    | succ k => exact ih _ k

end Session

namespace Verifier

variable (v : Verifier) (session : Session)

/-- The session in which the site with the given number is verified. -/
def sessionAt (sites : List Site) (k : Nat) : Session :=
  session.after ((sites.take k).map (Task.mk v))

theorem sessionAt_succ {sites : List Site} {k : Nat} {site : Site} (h : sites[k]? = some site) :
    v.sessionAt session sites (k + 1) = Step.next ⟨⟨v, site⟩, v.sessionAt session sites k⟩ := by
  rw [sessionAt, List.take_add_one, h, List.map_append, Session.after_append]
  rfl

theorem ladder_sessionAt (sites : List Site) (k : Nat) :
    (v.sessionAt session sites k).ladder = session.ladder := session.ladder_after _

theorem reports_scan (buf : Bytes) (start : Nat) :
    (v.scan session buf start).reports =
      (session.steps ((sites buf start).map (Task.mk v))).map Step.report :=
  (Session.verifyAll_eq v session _).1

theorem session_scan (buf : Bytes) (start : Nat) :
    (v.scan session buf start).session =
      session.after ((sites buf start).map (Task.mk v)) :=
  (Session.verifyAll_eq v session _).2

theorem getElem?_reports_scan (buf : Bytes) (start k : Nat) :
    (v.scan session buf start).reports[k]? = (sites buf start)[k]?.map fun site =>
      Step.report ⟨⟨v, site⟩, v.sessionAt session (sites buf start) k⟩ := by
  rw [reports_scan, List.getElem?_map, Session.getElem?_steps, List.getElem?_map, sessionAt,
    List.map_take]
  cases (sites buf start)[k]? <;> rfl

end Verifier

end SignedFlash
