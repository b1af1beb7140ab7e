import SignedFlash.Proofs.Boundaries
import SignedFlash.Proofs.Generated
import SignedFlash.Proofs.Remembering

/-!
# Scanning again

A scan leaves behind the digest of the last image that its signature unlocks, whatever the session
remembered before. So the second scan of a buffer begins with the digest that it ends with, and all
scans after it are the same. It accepts what the first scan accepted, because the first scan
remembered no more at any image than the second does.
-/

namespace SignedFlash

/-! ## What a task leaves behind -/

/-- The register value of an image with the given final digest under a ladder. -/
def register (ladder final : Digest) : Digest := final.xor ladder

/-- Whether no buffer folded for one image has the register value of another for its digest. -/
def NoneCollides (ladder : Digest) (tasks : List Task) : Prop :=
  ∀ task ∈ tasks, ∀ image, task.image? = some image →
    ∀ task' ∈ tasks, ∀ image', task'.image? = some image' →
      Sha256.digestWords (image.folded task.skipHash) ≠ register ladder image'.hashes.final

/-- Whether the digest that a session remembers is that of an image of the given tasks. -/
def KnownFrom (tasks : List Task) (session : Session) : Prop :=
  ∀ digest, session.warmBoot = some digest →
    ∃ task ∈ tasks, ∃ image, task.image? = some image ∧
      digest = register session.ladder image.hashes.final

namespace Task

/-- The digest that a task leaves in every session with the given ladder: that of an image which
its signature unlocks. Other tasks leave what was there. -/
def mark? (ladder : Digest) (task : Task) : Option Digest :=
  task.image?.bind fun image =>
    if Sha256.digestWords (image.folded task.skipHash) = unlockSentinel ∧
        register ladder image.hashes.final ≠ unlockSentinel then
      some (register ladder image.hashes.final)
    else none

theorem mark?_eq_some_iff {ladder digest : Digest} {task : Task} :
    task.mark? ladder = some digest ↔ ∃ image, task.image? = some image ∧
      image.Unlocks task.skipHash ∧ digest = register ladder image.hashes.final ∧
        digest ≠ unlockSentinel := by
  unfold mark?
  rw [Option.bind_eq_some_iff]
  refine exists_congr fun image => and_congr_right fun _ => ?_
  rw [Option.ite_none_right_eq_some, Option.some_inj]
  constructor
  · rintro ⟨⟨hunlocks, hregister⟩, rfl⟩
    exact ⟨hunlocks, rfl, hregister⟩
  · rintro ⟨hunlocks, rfl, hregister⟩
    exact ⟨⟨hunlocks, hregister⟩, rfl⟩

end Task

/-- The digest that tasks leave: that of the last image which its signature unlocks. -/
def lastMark? (ladder : Digest) (tasks : List Task) : Option Digest :=
  tasks.reverse.findSome? (Task.mark? ladder)

theorem lastMark?_cons (ladder : Digest) (task : Task) (tasks : List Task) :
    lastMark? ladder (task :: tasks) = (lastMark? ladder tasks).or (task.mark? ladder) := by
  rw [lastMark?, List.reverse_cons, List.findSome?_append, List.findSome?_singleton]
  rfl

theorem Step.next_warmBoot_of_mark? {step : Step} {ladder digest : Digest}
    (hladder : step.session.ladder = ladder) (hmark : step.task.mark? ladder = some digest) :
    step.next.warmBoot = some digest := by
  obtain ⟨image, himage, hunlocks, hdigest, hsentinel⟩ := Task.mark?_eq_some_iff.mp hmark
  have hregister : step.session.warmRegister image.hashes.final = digest := by
    rw [hdigest, Session.warmRegister, hladder, register]
  rw [next_warmBoot_of_unlocks himage hunlocks (by rwa [hregister]), hregister]

section Runs

variable {tasks : List Task} {ladder : Digest}

theorem Step.next_warmBoot_eq_mark? {step : Step} (hnone : NoneCollides ladder tasks)
    (hmem : step.task ∈ tasks) (hladder : step.session.ladder = ladder)
    (hknown : KnownFrom tasks step.session) :
    step.next.warmBoot = (step.task.mark? ladder).or step.session.warmBoot := by
  cases hmark : step.task.mark? ladder with
  | some digest => exact next_warmBoot_of_mark? hladder hmark
  | none =>
    rw [Option.none_or]
    cases himage : step.image? with
    | none => rw [next_of_image?_eq_none himage]
    | some image =>
      have hregister : step.session.warmRegister image.hashes.final =
          register ladder image.hashes.final := by
        rw [Session.warmRegister, hladder, register]
      rw [next_warmBoot himage, if_neg]
      -- no other image is accepted by its signature
      intro hsigned
      obtain ⟨hcold, hunlocked⟩ := step.session.unlocked_of_verdict_eq_signed image _ hsigned
      rcases hunlocked with hsentinel | hrecalled
      · have hfree : register ladder image.hashes.final ≠ unlockSentinel := by
          intro hregister'
          rw [Session.warmUnlock, hregister, hregister', (step.session.unlocked_eq_true_iff _).mpr
            (Or.inl rfl)] at hcold
          cases hcold
        have hmarked : step.task.mark? ladder = some (register ladder image.hashes.final) :=
          Task.mark?_eq_some_iff.mpr ⟨image, himage, hsentinel, rfl, hfree⟩
        cases hmark.symm.trans hmarked
      · obtain ⟨task', hmem', image', himage', hdigest⟩ := hknown _ hrecalled
        rw [hladder] at hdigest
        exact hnone _ hmem _ himage _ hmem' _ himage' hdigest

theorem Step.knownFrom_next {step : Step} (hnone : NoneCollides ladder tasks)
    (hmem : step.task ∈ tasks) (hladder : step.session.ladder = ladder)
    (hknown : KnownFrom tasks step.session) : KnownFrom tasks step.next := by
  intro digest hdigest
  rw [Step.next_warmBoot_eq_mark? hnone hmem hladder hknown, Option.or_eq_some_iff] at hdigest
  rw [Step.next_ladder, hladder]
  rcases hdigest with hmark | ⟨-, hbefore⟩
  · obtain ⟨image, himage, -, hregister, -⟩ := Task.mark?_eq_some_iff.mp hmark
    exact ⟨_, hmem, image, himage, hregister⟩
  · rw [← hladder]
    exact hknown _ hbefore

/-- A run leaves the mark of its tasks, or what was remembered before if they have none. -/
theorem Session.after_warmBoot (hnone : NoneCollides ladder tasks) {session : Session}
    (hladder : session.ladder = ladder) (hknown : KnownFrom tasks session)
    {run : List Task} (hrun : run ⊆ tasks) :
    (session.after run).ladder = ladder ∧ KnownFrom tasks (session.after run) ∧
      (session.after run).warmBoot = (lastMark? ladder run).or session.warmBoot := by
  induction run generalizing session with
  | nil => exact ⟨hladder, hknown, rfl⟩
  | cons task run ih =>
    have hmem : task ∈ tasks := hrun List.mem_cons_self
    let step : Step := ⟨task, session⟩
    have hnext : step.next.warmBoot = (task.mark? ladder).or session.warmBoot :=
      Step.next_warmBoot_eq_mark? hnone hmem hladder hknown
    have hknown' : KnownFrom tasks step.next := Step.knownFrom_next hnone hmem hladder hknown
    obtain ⟨hladder', hknown'', hwarm⟩ := ih (Step.next_ladder.trans hladder) hknown'
      (fun t ht => hrun (List.mem_cons_of_mem _ ht))
    refine ⟨hladder', hknown'', ?_⟩
    rw [Session.after, hwarm, hnext, lastMark?_cons, Option.or_assoc]

/-! ## Reports in a session that remembers more -/

/-- Whether a report says of an image what an earlier one does, and accepts it if that does. How the
image is accepted may change. -/
structure Report.Confirms (r earlier : Report) : Prop where
  offset : r.offset = earlier.offset
  kind : r.kind = earlier.kind
  hashHeads : r.hashHeads = earlier.hashHeads
  checksums : r.checksums = earlier.checksums
  keySource : r.keySource = earlier.keySource
  isVerified : earlier.isVerified = true → r.isVerified = true

/-- A session that remembers whatever another one does accepts what that accepts. -/
theorem Step.confirms_report {step step' : Step} (htask : step'.task = step.task)
    (hladder : step'.session.ladder = step.session.ladder)
    (hmore : ∀ digest, step.session.warmBoot = some digest →
      step'.session.warmBoot = some digest) :
    step'.report.Confirms step.report := by
  cases himage : step.image? with
  | none =>
    rw [Step.report_eq_of_image?_eq_none htask himage]
    exact ⟨rfl, rfl, rfl, rfl, rfl, id⟩
  | some image =>
    rw [Step.report_of_image? himage,
      Step.report_of_image? ((Step.image?_eq_of_task_eq htask).trans himage),
      Step.skipHash_eq_of_task_eq htask, htask]
    refine ⟨rfl, rfl, rfl, rfl, rfl, fun hverified => ?_⟩
    rw [Verifier.isVerified_verdictReport, Session.verdict_ne_refused_iff] at hverified ⊢
    have hregister : step'.session.warmRegister image.hashes.final =
        step.session.warmRegister image.hashes.final := by
      rw [Session.warmRegister, Session.warmRegister, hladder]
    rw [hregister]
    exact hverified.imp (Or.imp_right (hmore _)) (Or.imp_right (hmore _))

theorem Session.confirms_reports (hnone : NoneCollides ladder tasks) {s s' : Session}
    (hladder : s.ladder = ladder) (hladder' : s'.ladder = ladder) (hknown : KnownFrom tasks s)
    (hknown' : KnownFrom tasks s')
    (hmore : ∀ digest, s.warmBoot = some digest → s'.warmBoot = some digest)
    {run : List Task} (hrun : run ⊆ tasks) :
    List.Forall₂ (fun earlier r => r.Confirms earlier) ((s.steps run).map Step.report)
      ((s'.steps run).map Step.report) := by
  induction run generalizing s s' with
  | nil => exact .nil
  | cons task run ih =>
    have hmem : task ∈ tasks := hrun List.mem_cons_self
    let step : Step := ⟨task, s⟩
    let step' : Step := ⟨task, s'⟩
    have hnext : step.next.warmBoot = (task.mark? ladder).or s.warmBoot :=
      Step.next_warmBoot_eq_mark? hnone hmem hladder hknown
    have hnext' : step'.next.warmBoot = (task.mark? ladder).or s'.warmBoot :=
      Step.next_warmBoot_eq_mark? hnone hmem hladder' hknown'
    have hafter : KnownFrom tasks step.next := Step.knownFrom_next hnone hmem hladder hknown
    have hafter' : KnownFrom tasks step'.next := Step.knownFrom_next hnone hmem hladder' hknown'
    refine .cons (Step.confirms_report rfl (hladder'.trans hladder.symm) hmore) ?_
    apply ih (Step.next_ladder.trans hladder) (Step.next_ladder.trans hladder') hafter hafter'
    · -- the task leaves the same mark in both sessions, or none
      intro digest
      rw [hnext, hnext', Option.or_eq_some_iff, Option.or_eq_some_iff]
      exact Or.imp_right (And.imp_right (hmore _))
    · exact fun t ht => hrun (List.mem_cons_of_mem _ ht)

end Runs

/-! ## Scans in a row -/

-- Calls that are repeated in a session which they leave as it is give the same reports each time.
theorem Session.performAll_replicate {call : Call} {s : Session}
    (hstable : (s.perform call).2.Agrees s) (n : Nat) :
    (s.performAll (List.replicate n call)).1 = List.replicate n (s.perform call).1 := by
  -- on the calls left, from any session that cannot be told from the first one
  have hrepeat (s' : Session) (h : s'.Agrees s) :
      (s'.performAll (List.replicate n call)).1 = List.replicate n (s.perform call).1 := by
    induction n generalizing s' with
    | zero => rfl
    | succ n ih =>
      obtain ⟨hreports, hafter⟩ := h.perform call
      rw [List.replicate_succ, List.replicate_succ, performAll]
      exact congrArg₂ _ hreports (ih _ (hafter.trans hstable))
  exact hrepeat s (Agrees.refl s)

/-- As long as no digests coincide, all scans of a buffer after the first one give the same reports,
and these confirm those of the first scan. -/
theorem rescans_stable (v : Verifier) (buf : Bytes) (start : Nat) (source : RandomSource)
    (ladder : Digest)
    (hnone : ∀ site ∈ sites buf start, ∀ image, v.admitted? site = some image →
      ∀ site' ∈ sites buf start, ∀ image', v.admitted? site' = some image' →
        Sha256.digestWords (image.folded v.options.skipHashChecking) ≠
          image'.hashes.final.xor ladder) :
    let fresh : Session := ⟨source, ladder, none⟩
    let first := v.scan fresh buf start
    let second := v.scan first.session buf start
    (∀ n, (fresh.performAll (List.replicate (n + 2) (.scan v buf start))).1 =
        first.reports :: List.replicate (n + 1) second.reports) ∧
      List.Forall₂ (fun earlier r => r.Confirms earlier) first.reports second.reports := by
  intro fresh first second
  let tasks := (Call.scan v buf start).tasks
  have hcollides : NoneCollides ladder tasks := by
    intro task hmem image himage task' hmem' image' himage'
    obtain ⟨site, hsite, rfl⟩ := List.mem_map.mp hmem
    obtain ⟨site', hsite', rfl⟩ := List.mem_map.mp hmem'
    exact hnone site hsite image himage site' hsite' image' himage'
  have hfirst : first.session = fresh.after tasks := v.session_scan fresh buf start
  have hsecond : second.session = first.session.after tasks :=
    v.session_scan first.session buf start
  have hcold : fresh.warmBoot = none := rfl
  have hfresh : KnownFrom tasks fresh := fun _ hsome => nomatch hcold.symm.trans hsome
  -- a scan in a session that a scan left behind leaves it as it is
  obtain ⟨hladder, hknown, hwarm⟩ :=
    Session.after_warmBoot hcollides rfl hfresh (List.Subset.refl tasks)
  obtain ⟨hladder', -, hwarm'⟩ := Session.after_warmBoot hcollides hladder hknown
    (List.Subset.refl tasks)
  rw [← hfirst] at hladder hknown hwarm hladder' hwarm'
  rw [← hsecond] at hladder' hwarm'
  have hstable : (first.session.perform (.scan v buf start)).2.Agrees first.session :=
    ⟨hladder'.trans hladder.symm, hwarm'.trans (by rw [hwarm, ← Option.or_assoc, Option.or_self])⟩
  constructor
  · intro n
    have hlater := Session.performAll_replicate hstable (n + 1)
    rw [List.replicate_succ, Session.performAll]
    exact congrArg (first.reports :: ·) hlater
  · rw [v.reports_scan fresh, v.reports_scan first.session]
    exact Session.confirms_reports hcollides rfl hladder hfresh hknown
      (fun _ hsome => nomatch hcold.symm.trans hsome) (List.Subset.refl tasks)

/-! ## An image after its unsigned copy -/

/-- The sample image without its signature. -/
def unsignedBytes : Bytes := sampleSpec.signedBytes sampleCrypto (.zero 96)

/-- The digest of the buffer that is folded for it. -/
def unsignedDigest : Digest :=
  ⟨[0xa53ba37f, 0xb7ddd2b7, 0xc7f2a802, 0x5954b3b6,
    0xd9ba9b0a, 0x61905e1a, 0x0264fef7, 0xc3b6c1bc], rfl⟩

theorem length_unsignedBytes : unsignedBytes.length = alignment :=
  ImageSpec.length_signedBytes length_payload_sampleSpec _

theorem power_zero_sampleSpec : sampleSpec.publicKey.power (.zero 96) = .zero 96 := by
  rw [PublicKey.power_eq_iff (by decide) (Words.odd_toNat (by decide))]
  exact ⟨by decide +kernel, by decide +kernel⟩

theorem digestWords_unsigned :
    Sha256.digestWords (sampleSpec.publicKey.foldedBuffer (.zero 96) sampleDigest false) =
      unsignedDigest := by
  have hlegacy : sampleSpec.publicKey.isLegacy = false := by decide
  rw [PublicKey.foldedBuffer, PublicKey.liftedPower, power_zero_sampleSpec, hlegacy]
  decide +kernel

/-- Where the unsigned image stands its signature is looked at, and gives another digest. -/
theorem exists_admitted?_unsigned {v : Verifier} (hinfo : v.info = InfoBank.erased)
    (htakes : v.Takes sampleSpec.publicKey) (offset : Nat) (rest : Bytes) :
    ∃ image, v.admitted? ⟨offset, unsignedBytes ++ rest⟩ = some image ∧
      image.hashes.final = sampleDigest ∧
      Sha256.digestWords (image.folded false) = unsignedDigest := by
  obtain ⟨image, hadmitted, hheader, -, hkey, hfinal, -⟩ :=
    v.admitted?_generated sampleSpec sampleCrypto (.zero 96) rfl sampleSpec_fits hinfo htakes
      offset rest
  rw [show (sampleSpec.checkedHeader sampleCrypto).2 = sampleDigest from
    finalDigest_sampleImage] at hfinal
  have hsignature : image.header.signature = .zero 96 := ImageSpec.signature_of_header_eq hheader
  refine ⟨image, hadmitted, hfinal, ?_⟩
  rw [SignedImage.folded, hkey, hsignature, hfinal, digestWords_unsigned]

-- Only what the session remembers can make it accept the unsigned image.
theorem isVerified_unsigned_iff {v : Verifier} (hinfo : v.info = InfoBank.erased)
    (htakes : v.Takes sampleSpec.publicKey) (hskip : v.options.skipHashChecking = false)
    (offset : Nat) (rest : Bytes) (s : Session) :
    (Step.report ⟨⟨v, ⟨offset, unsignedBytes ++ rest⟩⟩, s⟩).isVerified = true ↔
      s.warmRegister sampleDigest = unlockSentinel ∨
        s.warmBoot = some (s.warmRegister sampleDigest) ∨ s.warmBoot = some unsignedDigest := by
  obtain ⟨image, hadmitted, hfinal, hfolded⟩ := exists_admitted?_unsigned hinfo htakes offset rest
  have hsentinel : unsignedDigest ≠ unlockSentinel := by decide
  have hverdict : s.verdict image v.options.skipHashChecking ≠ .refused ↔
      s.warmRegister sampleDigest = unlockSentinel ∨
        s.warmBoot = some (s.warmRegister sampleDigest) ∨ s.warmBoot = some unsignedDigest := by
    rw [Session.verdict_ne_refused_iff, hskip, SignedImage.Unlocks, hfinal, hfolded,
      or_iff_right hsentinel, or_assoc]
  rw [← hverdict, Step.isVerified_report_iff]
  constructor
  · rintro ⟨found, hfound, haccepted⟩
    obtain rfl := Option.some.inj (hadmitted.symm.trans hfound)
    exact haccepted
  · exact fun haccepted => ⟨image, hadmitted, haccepted⟩

theorem accepted_sampleImage {v : Verifier} (hinfo : v.info = InfoBank.erased)
    (htakes : v.Takes sampleSpec.publicKey) (hskip : v.options.skipHashChecking = false)
    (offset : Nat) (rest : Bytes) (s : Session)
    (hregister : s.warmRegister sampleDigest ≠ unlockSentinel) :
    (Step.report ⟨⟨v, ⟨offset, sampleImage.bytes ++ rest⟩⟩, s⟩).isVerified = true ∧
      (Step.next ⟨⟨v, ⟨offset, sampleImage.bytes ++ rest⟩⟩, s⟩).warmBoot =
        some (s.warmRegister sampleDigest) := by
  obtain ⟨image, hadmitted, -, hfinal, -, hvalid⟩ :=
    exists_admitted?_sampleImage hinfo htakes offset rest
  have hcovered : image.IsCovered v.options.skipHashChecking := by
    rw [hskip]
    exact image.isCovered_false_iff.mpr hvalid
  rw [← hfinal] at hregister ⊢
  have himage : Step.image? ⟨⟨v, ⟨offset, sampleImage.bytes ++ rest⟩⟩, s⟩ = some image := hadmitted
  exact Step.accepted_of_isCovered himage hcovered hregister

-- What the signature of the sample image unlocks, and what is folded for its copy without one.
theorem digests_sampleImage_at {offset : Nat} {rest : Bytes} {image : SignedImage}
    (himage : sampleVerifier.admitted? ⟨offset, sampleImage.bytes ++ rest⟩ = some image) :
    image.hashes.final = sampleDigest ∧
      Sha256.digestWords (image.folded false) = unlockSentinel := by
  obtain ⟨signed, hadmitted, -, hfinal, -, hvalid⟩ :=
    exists_admitted?_sampleImage rfl sampleVerifier_takes offset rest
  obtain rfl := Option.some.inj (hadmitted.symm.trans himage)
  exact ⟨hfinal, SignedImage.unlocks_of_isCovered (signed.isCovered_false_iff.mpr hvalid)⟩

theorem digests_unsigned_at {offset : Nat} {rest : Bytes} {image : SignedImage}
    (himage : sampleVerifier.admitted? ⟨offset, unsignedBytes ++ rest⟩ = some image) :
    image.hashes.final = sampleDigest ∧
      Sha256.digestWords (image.folded false) = unsignedDigest := by
  obtain ⟨unsigned, hadmitted, hdigests⟩ :=
    exists_admitted?_unsigned rfl sampleVerifier_takes offset rest
  obtain rfl := Option.some.inj (hadmitted.symm.trans himage)
  exact hdigests

theorem sites_unsigned_append_sampleImage :
    sites (unsignedBytes ++ sampleImage.bytes) 0 =
      [⟨0, unsignedBytes ++ sampleImage.bytes⟩, ⟨alignment, sampleImage.bytes⟩] :=
  sites_pair length_unsignedBytes length_sampleImage

-- The images in this flash have one digest, which no buffer folded for them gives.
theorem noneCollides_unsigned_append_sampleImage :
    ∀ site ∈ sites (unsignedBytes ++ sampleImage.bytes) 0, ∀ image,
      sampleVerifier.admitted? site = some image →
      image.hashes.final = sampleDigest ∧
        Sha256.digestWords (image.folded false) ≠ sampleDigest := by
  rw [sites_unsigned_append_sampleImage]
  intro site hmem image himage
  rcases List.mem_pair.mp hmem with rfl | rfl
  · obtain ⟨hfinal, hfolded⟩ := digests_unsigned_at himage
    exact ⟨hfinal, by rw [hfolded]; decide⟩
  · rw [← List.append_nil sampleImage.bytes] at himage
    obtain ⟨hfinal, hfolded⟩ := digests_sampleImage_at himage
    exact ⟨hfinal, by rw [hfolded]; decide⟩

/-- The unsigned image is refused by the first scan, but not by those that come later: the scan
before them accepted an image with the same digest. -/
theorem rescans_of_unsigned_image :
    let call : Call := .scan sampleVerifier (unsignedBytes ++ sampleImage.bytes) 0
    ∃ first second, (sampleSession.performAll (List.replicate 3 call)).1 =
        [first, second, second] ∧
      first.map Report.isVerified = [false, true] ∧
      second.map Report.isVerified = [true, true] := by
  intro call
  have hladder : sampleDigest.xor (.zero 8) = sampleDigest := by decide
  obtain ⟨hrescans, -⟩ := rescans_stable sampleVerifier (unsignedBytes ++ sampleImage.bytes) 0
    ⟨fun _ => 0⟩ (.zero 8) (by
      intro site hsite image himage site' hsite' image' himage'
      rw [(noneCollides_unsigned_append_sampleImage site' hsite' image' himage').1, hladder]
      exact (noneCollides_unsigned_append_sampleImage site hsite image himage).2)
  let task : Task := ⟨sampleVerifier, ⟨0, unsignedBytes ++ sampleImage.bytes⟩⟩
  let task' : Task := ⟨sampleVerifier, ⟨alignment, sampleImage.bytes⟩⟩
  have hscan (s : Session) :
      (sampleVerifier.scan s (unsignedBytes ++ sampleImage.bytes) 0).reports =
          [Step.report ⟨task, s⟩, Step.report ⟨task', Step.next ⟨task, s⟩⟩] ∧
        (sampleVerifier.scan s (unsignedBytes ++ sampleImage.bytes) 0).session =
          Step.next ⟨task', Step.next ⟨task, s⟩⟩ := by
    rw [Verifier.reports_scan, Verifier.session_scan, sites_unsigned_append_sampleImage]
    exact ⟨rfl, rfl⟩
  have hregister (s : Session) (h : s.ladder = .zero 8) :
      s.warmRegister sampleDigest = sampleDigest := by
    rw [Session.warmRegister, h, hladder]
  have hunsigned (s : Session) (h : s.ladder = .zero 8) :
      (Step.report ⟨task, s⟩).isVerified = true ↔ s.warmBoot = some sampleDigest ∨
        s.warmBoot = some unsignedDigest := by
    rw [isVerified_unsigned_iff rfl sampleVerifier_takes rfl, hregister s h]
    exact or_iff_right (by decide)
  have hsigned (s : Session) (h : s.ladder = .zero 8) :
      (Step.report ⟨task', s⟩).isVerified = true ∧
        (Step.next ⟨task', s⟩).warmBoot = some sampleDigest := by
    have haccepted := accepted_sampleImage rfl sampleVerifier_takes rfl alignment [] s (by
      rw [hregister s h]
      decide)
    rwa [List.append_nil, hregister s h] at haccepted
  -- the four steps of the first two scans
  let step : Step := ⟨task, sampleSession⟩
  let step' : Step := ⟨task', step.next⟩
  let again : Step := ⟨task, step'.next⟩
  have hladder' : step'.next.ladder = .zero 8 := Step.next_ladder.trans Step.next_ladder
  have hrefused : step.report.isVerified = false := by
    rw [← Bool.not_eq_true, hunsigned _ rfl]
    exact not_or.mpr ⟨(Option.some_ne_none _).symm, (Option.some_ne_none _).symm⟩
  obtain ⟨hverified, hremembered⟩ := hsigned step.next Step.next_ladder
  have hagain : again.report.isVerified = true := (hunsigned _ hladder').mpr (Or.inl hremembered)
  obtain ⟨hverified', -⟩ := hsigned again.next (Step.next_ladder.trans hladder')
  obtain ⟨hfirst, hnext⟩ := hscan sampleSession
  obtain ⟨hsecond, -⟩ := hscan step'.next
  refine ⟨_, _, hrescans 1, ?_, ?_⟩
  · rw [show (⟨⟨fun _ => 0⟩, .zero 8, none⟩ : Session) = sampleSession from rfl, hfirst,
      List.map_cons, List.map_singleton, hrefused, hverified]
  · rw [show (⟨⟨fun _ => 0⟩, .zero 8, none⟩ : Session) = sampleSession from rfl, hnext, hsecond,
      List.map_cons, List.map_singleton, hagain, hverified']

end SignedFlash
