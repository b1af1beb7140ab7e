import SignedFlash.Proofs.Rescans
import SignedFlash.Proofs.WarmBoot

/-!
# What the ladder does not show

A ladder hides the digest that a session remembers, and is itself hidden. Two sessions with
different ladders that remember the same image give the same verdict on every image, as long as no
digests coincide under one of the ladders, and remember the same image afterwards. So the reports of
a scan do not depend on the ladder, nor on any other random number.
-/

namespace SignedFlash

/-- Whether no digests of the given tasks coincide under a ladder. -/
structure Separates (ladder : Digest) (tasks : List Task) : Prop where
  -- no register value is the sentinel
  sentinel : ∀ task ∈ tasks, ∀ image, task.image? = some image →
    register ladder image.hashes.final ≠ unlockSentinel
  folded : NoneCollides ladder tasks

namespace Session

/-- The final digest of the image that a session remembers. -/
def remembered? (session : Session) : Option Digest :=
  session.warmBoot.map fun register => register.xor session.ladder

theorem remembered?_eq_some_iff {session : Session} {final : Digest} :
    session.remembered? = some final ↔
      session.warmBoot = some (session.warmRegister final) := by
  unfold remembered? warmRegister
  rw [Option.map_eq_some_iff]
  constructor
  · rintro ⟨digest, hdigest, rfl⟩
    rw [Words.xor_xor_cancel_right, hdigest]
  · intro h
    exact ⟨_, h, Words.xor_xor_cancel_right _ _⟩

variable {session : Session} {tasks : List Task} {task : Task} {image : SignedImage}

/-- As long as no digests coincide, the verdict depends on nothing in the session but the image that
it remembers. -/
theorem verdict_of_separates (hseparates : Separates session.ladder tasks)
    (hknown : KnownFrom tasks session) (hmem : task ∈ tasks) (himage : task.image? = some image) :
    session.verdict image task.skipHash =
      if session.remembered? = some image.hashes.final then .warm
      else if Sha256.digestWords (image.folded task.skipHash) = unlockSentinel then .signed
      else .refused := by
  have hwarm : session.warmUnlock image.hashes.final = true ↔
      session.remembered? = some image.hashes.final := by
    rw [remembered?_eq_some_iff, warmUnlock, unlocked_eq_true_iff]
    exact or_iff_right (hseparates.sentinel task hmem image himage)
  have hsigned : session.unlocked (Sha256.digestWords (image.folded task.skipHash)) = true ↔
      Sha256.digestWords (image.folded task.skipHash) = unlockSentinel := by
    rw [unlocked_eq_true_iff]
    refine or_iff_left fun hrecalled => ?_
    -- a digest that is remembered is the register value of some image
    obtain ⟨task', hmem', image', himage', hdigest⟩ := hknown _ hrecalled
    exact hseparates.folded task hmem image himage task' hmem' image' himage' hdigest
  simp only [verdict, hwarm, hsigned]

end Session

/-! ## Two sessions with ladders of their own -/

/-- Whether two sessions remember the same image of the given tasks, each under its own ladder. -/
structure Mirrors (tasks : List Task) (s s' : Session) : Prop where
  separates : Separates s.ladder tasks
  separates' : Separates s'.ladder tasks
  known : KnownFrom tasks s
  known' : KnownFrom tasks s'
  remembered : s.remembered? = s'.remembered?

namespace Step

variable {tasks : List Task} {step : Step}

theorem separates_next (h : Separates step.session.ladder tasks) :
    Separates step.next.ladder tasks := by
  rwa [next_ladder]

-- What is remembered after an image is decided by what was remembered before it.
theorem remembered?_next {image : SignedImage} (himage : step.image? = some image) :
    step.next.remembered? =
      if step.session.verdict image step.skipHash = .signed then some image.hashes.final
      else step.session.remembered? := by
  have hnext := next_warmBoot himage
  split
  · rename_i hsigned
    rw [if_pos hsigned] at hnext
    rw [Session.remembered?_eq_some_iff, hnext, Session.warmRegister, Session.warmRegister,
      next_ladder]
  · rename_i hsigned
    rw [if_neg hsigned] at hnext
    rw [Session.remembered?, Session.remembered?, hnext, next_ladder]

/-- A task is reported on alike in both sessions, and both remember the same image afterwards. -/
theorem mirrors_next {s s' : Session} {task : Task} (h : Mirrors tasks s s') (hmem : task ∈ tasks) :
    (Step.mk task s).report = (Step.mk task s').report ∧
      Mirrors tasks (Step.mk task s).next (Step.mk task s').next := by
  let step : Step := ⟨task, s⟩
  let step' : Step := ⟨task, s'⟩
  show step.report = step'.report ∧ Mirrors tasks step.next step'.next
  have hknown : KnownFrom tasks step.next := knownFrom_next h.separates.folded hmem rfl h.known
  have hknown' : KnownFrom tasks step'.next := knownFrom_next h.separates'.folded hmem rfl h.known'
  suffices hsame : step.report = step'.report ∧ step.next.remembered? = step'.next.remembered? from
    ⟨hsame.1, separates_next h.separates, separates_next h.separates', hknown, hknown', hsame.2⟩
  cases himage : task.image? with
  | none =>
    have hnone : step.image? = none := himage
    have hnone' : step'.image? = none := himage
    rw [next_of_image?_eq_none hnone, next_of_image?_eq_none hnone']
    exact ⟨report_eq_of_image?_eq_none rfl hnone', h.remembered⟩
  | some image =>
    have hsome : step.image? = some image := himage
    have hsome' : step'.image? = some image := himage
    have hverdict : step.session.verdict image step.skipHash =
        step'.session.verdict image step'.skipHash := by
      show s.verdict image task.skipHash = s'.verdict image task.skipHash
      rw [Session.verdict_of_separates h.separates h.known hmem himage,
        Session.verdict_of_separates h.separates' h.known' hmem himage, h.remembered]
    rw [report_of_image? hsome, report_of_image? hsome', remembered?_next hsome,
      remembered?_next hsome', hverdict]
    refine ⟨rfl, ?_⟩
    rw [show step.session.remembered? = step'.session.remembered? from h.remembered]

end Step

theorem Mirrors.reports_eq {tasks : List Task} {s s' : Session} (h : Mirrors tasks s s')
    {run : List Task} (hrun : run ⊆ tasks) :
    (s.steps run).map Step.report = (s'.steps run).map Step.report := by
  -- on the tasks left, from any two sessions that remember the same image
  induction run generalizing s s' with
  | nil => rfl
  | cons task run ih =>
    obtain ⟨hreport, hnext⟩ := Step.mirrors_next h (hrun List.mem_cons_self)
    have hreports := ih hnext (fun t ht => hrun (List.mem_cons_of_mem _ ht))
    rw [Session.steps, Session.steps, List.map_cons, List.map_cons, hreport, hreports]

/-! ## Two scans -/

/-- Whether no digests of the images that a scan looks at coincide under a ladder. -/
structure Verifier.HidesLadder (v : Verifier) (buf : Bytes) (start : Nat) (ladder : Digest) :
    Prop where
  -- the ladder turns no final digest into the sentinel
  sentinel : ∀ site ∈ sites buf start, ∀ image, v.admitted? site = some image →
    image.hashes.final.xor ladder ≠ unlockSentinel
  -- and none into the digest of a buffer that is folded
  folded : ∀ site ∈ sites buf start, ∀ image, v.admitted? site = some image →
    ∀ site' ∈ sites buf start, ∀ image', v.admitted? site' = some image' →
      Sha256.digestWords (image.folded v.options.skipHashChecking) ≠
        image'.hashes.final.xor ladder

theorem Verifier.HidesLadder.separates {v : Verifier} {buf : Bytes} {start : Nat}
    {ladder : Digest} (h : v.HidesLadder buf start ladder) :
    Separates ladder (Call.scan v buf start).tasks := by
  constructor
  · intro task hmem image himage
    obtain ⟨site, hsite, rfl⟩ := List.mem_map.mp hmem
    exact h.sentinel site hsite image himage
  · intro task hmem image himage task' hmem' image' himage'
    obtain ⟨site, hsite, rfl⟩ := List.mem_map.mp hmem
    obtain ⟨site', hsite', rfl⟩ := List.mem_map.mp hmem'
    exact h.folded site hsite image himage site' hsite' image' himage'

/-- Scans in two new sessions give the same reports, whatever their ladders and random sources are,
as long as no digests coincide under one of the ladders. -/
theorem reports_do_not_show_ladder (v : Verifier) (buf : Bytes) (start : Nat)
    (source source' : RandomSource) (ladder ladder' : Digest)
    (hhides : v.HidesLadder buf start ladder) (hhides' : v.HidesLadder buf start ladder') :
    (v.scan ⟨source, ladder, none⟩ buf start).reports =
      (v.scan ⟨source', ladder', none⟩ buf start).reports := by
  have hmirrors : Mirrors (Call.scan v buf start).tasks ⟨source, ladder, none⟩
      ⟨source', ladder', none⟩ :=
    ⟨hhides.separates, hhides'.separates, nofun, nofun, rfl⟩
  rw [v.reports_scan, v.reports_scan]
  exact hmirrors.reports_eq (List.Subset.refl _)

/-! ## An image before its unsigned copy -/

/-- The sample image, and the same without its signature. -/
def repeatedFlash : Bytes := sampleImage.bytes ++ unsignedBytes

/-- The ladder of a session whose random words are all one. -/
def onesLadder : Digest :=
  ⟨[0x0308eaef, 0xd345516c, 0x6b8134cb, 0xd681d517,
    0x463ec632, 0xa59f4e54, 0xff6bd210, 0xbbd3f73c], rfl⟩

theorem ladder_start_ones : (Session.start ⟨fun _ => 1⟩).ladder = onesLadder := by
  decide +kernel

theorem sites_repeatedFlash :
    sites repeatedFlash 0 = [⟨0, repeatedFlash⟩, ⟨alignment, unsignedBytes⟩] :=
  sites_pair length_sampleImage length_unsignedBytes

-- The two images have one digest, and the buffers folded for them have two others.
theorem digests_repeatedFlash {site : Site} (hmem : site ∈ sites repeatedFlash 0)
    {image : SignedImage} (himage : sampleVerifier.admitted? site = some image) :
    image.hashes.final = sampleDigest ∧
      (Sha256.digestWords (image.folded false) = unlockSentinel ∨
        Sha256.digestWords (image.folded false) = unsignedDigest) := by
  rw [sites_repeatedFlash] at hmem
  rcases List.mem_pair.mp hmem with rfl | rfl
  · obtain ⟨hfinal, hfolded⟩ := digests_sampleImage_at himage
    exact ⟨hfinal, Or.inl hfolded⟩
  · rw [← List.append_nil unsignedBytes] at himage
    obtain ⟨hfinal, hfolded⟩ := digests_unsigned_at himage
    exact ⟨hfinal, Or.inr hfolded⟩

theorem hidesLadder_repeatedFlash {ladder : Digest}
    (hsentinel : sampleDigest.xor ladder ≠ unlockSentinel)
    (hunsigned : sampleDigest.xor ladder ≠ unsignedDigest) :
    sampleVerifier.HidesLadder repeatedFlash 0 ladder := by
  constructor
  · intro site hsite image himage
    rwa [(digests_repeatedFlash hsite himage).1]
  · intro site hsite image himage site' hsite' image' himage'
    rw [(digests_repeatedFlash hsite' himage').1]
    rcases (digests_repeatedFlash hsite himage).2 with hfolded | hfolded
    · exact fun h => hsentinel (h.symm.trans hfolded)
    · exact fun h => hunsigned (h.symm.trans hfolded)

-- The unsigned image is accepted because of the image before it, which stays the one remembered.
theorem scan_repeatedFlash (source : RandomSource) {ladder : Digest}
    (hsentinel : sampleDigest.xor ladder ≠ unlockSentinel) :
    let result := sampleVerifier.scan ⟨source, ladder, none⟩ repeatedFlash 0
    result.reports.map Report.warmBoot = [false, true] ∧
      result.session.warmBoot = some (sampleDigest.xor ladder) := by
  intro result
  let first : Step := ⟨⟨sampleVerifier, ⟨0, repeatedFlash⟩⟩, ⟨source, ladder, none⟩⟩
  let second : Step := ⟨⟨sampleVerifier, ⟨alignment, unsignedBytes⟩⟩, first.next⟩
  have hresult : result.reports = [first.report, second.report] ∧ result.session = second.next := by
    unfold result
    rw [Verifier.reports_scan, Verifier.session_scan, sites_repeatedFlash]
    exact ⟨rfl, rfl⟩
  obtain ⟨-, hnext⟩ : first.report.isVerified = true ∧
      first.next.warmBoot = some (sampleDigest.xor ladder) :=
    accepted_sampleImage rfl sampleVerifier_takes rfl 0 unsignedBytes _ hsentinel
  have hsite : first.task.site ∈ sites repeatedFlash 0 := by
    rw [sites_repeatedFlash]
    exact List.mem_cons_self
  have hfirst : first.report.warmBoot = false := by
    rw [← Bool.not_eq_true, Step.warmBoot_report_iff]
    rintro ⟨image, himage, hregister | hrecalled⟩
    · rw [Session.warmRegister, (digests_repeatedFlash hsite himage).1] at hregister
      exact hsentinel hregister
    · -- a new session remembers nothing
      cases hrecalled
  have hsession : second.session = first.next := by dsimp only [second]
  have hsecond : second.report.warmBoot = true := by
    obtain ⟨image, himage, hfinal, -⟩ :=
      exists_admitted?_unsigned rfl sampleVerifier_takes alignment []
    rw [List.append_nil] at himage
    refine Step.warmBoot_report_iff.mpr ⟨image, himage, Or.inr ?_⟩
    rw [hsession, hnext, hfinal, Session.warmRegister, Step.next_ladder]
  have hkept : second.next.warmBoot = first.next.warmBoot :=
    Step.next_warmBoot_of_not_acceptsSignature fun h => by
      simpa [hsecond] using h.bySignature
  rw [hresult.1, hresult.2, hkept, hnext, List.map_cons, List.map_singleton, hfirst, hsecond]
  exact ⟨rfl, rfl⟩

/-- The two sessions give the same reports, one of them on an image that is accepted without its
signature, and what they remember differs all the same. -/
theorem repeated_image_hides_ladder :
    let scan (word : Word) :=
      sampleVerifier.scan (Session.start ⟨fun _ => word⟩) repeatedFlash 0
    sampleVerifier.HidesLadder repeatedFlash 0 (Session.start ⟨fun _ => 0⟩).ladder ∧
      sampleVerifier.HidesLadder repeatedFlash 0 (Session.start ⟨fun _ => 1⟩).ladder ∧
      (scan 0).reports = (scan 1).reports ∧
      (scan 0).reports.map Report.warmBoot = [false, true] ∧
      (scan 0).session.warmBoot ≠ (scan 1).session.warmBoot := by
  intro scan
  have hstill : (Session.start ⟨fun _ => 0⟩).ladder = stillLadder := ladder_start_still
  have hones : (Session.start ⟨fun _ => 1⟩).ladder = onesLadder := ladder_start_ones
  have hhides : sampleVerifier.HidesLadder repeatedFlash 0 (Session.start ⟨fun _ => 0⟩).ladder := by
    rw [hstill]
    exact hidesLadder_repeatedFlash (by decide) (by decide)
  have hhides' :
      sampleVerifier.HidesLadder repeatedFlash 0 (Session.start ⟨fun _ => 1⟩).ladder := by
    rw [hones]
    exact hidesLadder_repeatedFlash (by decide) (by decide)
  have hregister : sampleDigest.xor (Session.start ⟨fun _ => 0⟩).ladder ≠ unlockSentinel := by
    rw [hstill]
    decide
  have hregister' : sampleDigest.xor (Session.start ⟨fun _ => 1⟩).ladder ≠ unlockSentinel := by
    rw [hones]
    decide
  obtain ⟨hwarm, hremembered⟩ := scan_repeatedFlash (RandomSource.skip ⟨fun _ => 0⟩ 8) hregister
  obtain ⟨-, hremembered'⟩ := scan_repeatedFlash (RandomSource.skip ⟨fun _ => 1⟩ 8) hregister'
  refine ⟨hhides, hhides', reports_do_not_show_ladder _ _ _ _ _ _ _ hhides hhides', hwarm, ?_⟩
  intro hsame
  have hladders : sampleDigest.xor stillLadder = sampleDigest.xor onesLadder := by
    rw [← hstill, ← hones]
    exact Option.some.inj (hremembered.symm.trans (hsame.trans hremembered'))
  revert hladders
  decide

end SignedFlash
