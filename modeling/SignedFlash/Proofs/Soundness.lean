import SignedFlash.Proofs.Generated
import SignedFlash.Proofs.History

/-!
# What is accepted was signed

The only digest that a session remembers is that of an image which it accepted by its signature. So
as long as no digests coincide, an image is accepted by its own signature or, later on, because an
image with the same digest was.
-/

namespace SignedFlash

/-- Whether nothing but the canonical buffer gives the sentinel. -/
structure OnlyCanonicalUnlocks (steps : List Step) : Prop where
  -- no other buffer that is folded has the sentinel for its digest
  folded : ∀ step ∈ steps, ∀ buffer, step.folded? = some buffer →
    Sha256.digestWords buffer = unlockSentinel → buffer = canonicalBuffer
  -- and no final digest is turned into the sentinel by the ladder
  register : ∀ step ∈ steps, step.register? ≠ some unlockSentinel

/-- Whether no buffer gives the digest that the session remembers when the buffer is folded. -/
def NoneRecalled (steps : List Step) : Prop :=
  ∀ step ∈ steps, ∀ buffer, step.folded? = some buffer →
    step.session.warmBoot ≠ some (Sha256.digestWords buffer)

namespace Step

/-- Whether the image of a step has the given final digest, and a valid signature of it. -/
def Signs (step : Step) (digest : Digest) : Prop :=
  ∃ image, step.image? = some image ∧ image.hashes.final = digest ∧ image.HasValidSignature

variable {step : Step} {image : SignedImage}

theorem folded?_of_signed (himage : step.image? = some image)
    (hverdict : step.session.verdict image step.skipHash = .signed) :
    step.folded? = some (image.folded step.skipHash) :=
  folded?_eq_some_iff.mpr
    ⟨image, himage, (step.session.unlocked_of_verdict_eq_signed image _ hverdict).1, rfl⟩

-- An image is accepted by its signature only if the signature covers it, unless digests coincide.
theorem isCovered_of_signed
    (hverdict : step.session.verdict image step.skipHash = .signed)
    (hcanonical : Sha256.digestWords (image.folded step.skipHash) = unlockSentinel →
      image.folded step.skipHash = canonicalBuffer)
    (hrecalled : step.session.warmBoot ≠ some (Sha256.digestWords (image.folded step.skipHash))) :
    image.IsCovered step.skipHash := by
  have hunlocked := (step.session.unlocked_of_verdict_eq_signed image _ hverdict).2
  rw [← image.folded_eq_canonicalBuffer_iff]
  exact hcanonical (hunlocked.resolve_right hrecalled)

end Step

theorem onlyCanonicalUnlocks_of_isCovered {steps : List Step}
    (h : ∀ step ∈ steps, ∀ image, step.image? = some image →
      image.IsCovered step.skipHash ∧
        step.session.warmRegister image.hashes.final ≠ unlockSentinel) :
    OnlyCanonicalUnlocks steps := by
  constructor
  · intro step hmem buffer hfolded _
    obtain ⟨image, himage, -⟩ := Step.folded?_eq_some_iff.mp hfolded
    exact Step.folded?_of_isCovered himage (h step hmem image himage).1 hfolded
  · intro step hmem hregister
    obtain ⟨image, himage, hsentinel⟩ := Option.map_eq_some_iff.mp hregister
    exact (h step hmem image himage).2 hsentinel

/-! ## Runs from a session that remembers nothing -/

/-- Whether the signature of a step's image covers it. -/
def Step.Covered (step : Step) : Prop :=
  ∃ image, step.image? = some image ∧ image.IsCovered step.skipHash

theorem covered_of_signed {steps : List Step} (hcanonical : OnlyCanonicalUnlocks steps)
    {step : Step} (hmem : step ∈ steps) (hcold : step.session.warmBoot = none)
    {image : SignedImage} (himage : step.image? = some image)
    (hverdict : step.session.verdict image step.skipHash = .signed) : step.Covered := by
  have hfolded := Step.folded?_of_signed himage hverdict
  have hcanonicalBuffer := hcanonical.folded step hmem _ hfolded
  refine ⟨image, himage, Step.isCovered_of_signed hverdict hcanonicalBuffer ?_⟩
  rw [hcold]
  exact nofun

/-- The first image that is accepted is covered by its own signature. -/
theorem exists_covered_of_verified {session : Session} {tasks : List Task} {step : Step}
    (hcold : session.warmBoot = none) (hcanonical : OnlyCanonicalUnlocks (session.steps tasks))
    (hmem : step ∈ session.steps tasks) (hverified : step.report.isVerified = true) :
    ∃ earlier ∈ session.steps tasks, earlier.Covered := by
  -- as long as no image was covered, the session remembers nothing
  let inv (past : List Step) (session : Session) : Prop :=
    (∃ earlier ∈ past, earlier.Covered) ∨ session.warmBoot = none
  -- an image that is accepted by its signature while nothing is remembered is covered
  have hstep (past : List Step) (step : Step) (hmem : step ∈ session.steps tasks)
      (h : inv past step.session) : inv (past ++ [step]) step.next := by
    rcases h with ⟨earlier, hearlier, hcovered⟩ | hcold
    · exact Or.inl ⟨earlier, List.mem_append_left _ hearlier, hcovered⟩
    cases himage : step.image? with
    | none => exact Or.inr (by rw [Step.next_of_image?_eq_none himage, hcold])
    | some image =>
      by_cases hverdict : step.session.verdict image step.skipHash = .signed
      · exact Or.inl ⟨step, List.mem_append_right _ List.mem_cons_self,
          covered_of_signed hcanonical hmem hcold himage hverdict⟩
      · exact Or.inr (by rw [Step.next_warmBoot himage, if_neg hverdict, hcold])
  obtain ⟨past, rest, hsplit⟩ := List.append_of_mem hmem
  have hinv : inv past step.session := Session.inv_of_steps_eq (Or.inr hcold) hstep hsplit
  rcases hinv with ⟨earlier, hearlier, hcovered⟩ | hcold
  · refine ⟨earlier, ?_, hcovered⟩
    rw [hsplit]
    exact List.mem_append_left _ hearlier
  obtain ⟨image, himage, hverdict⟩ := Step.isVerified_report_iff.mp hverified
  refine ⟨step, hmem, ?_⟩
  cases hcase : step.session.verdict image step.skipHash with
  | refused => exact absurd hcase hverdict
  | signed => exact covered_of_signed hcanonical hmem hcold himage hcase
  | warm =>
    rcases (step.session.verdict_eq_warm_iff image _).mp hcase with hsentinel | hwarm
    · refine absurd ?_ (hcanonical.register step hmem)
      rw [Step.register?, himage, Option.map_some, hsentinel]
    · rw [hcold] at hwarm
      exact nomatch hwarm

-- An image that its signature covers is accepted in every run.
theorem isVerified_of_covered {step : Step} (h : step.Covered) : step.report.isVerified = true := by
  obtain ⟨image, himage, hcovered⟩ := h
  exact Step.isVerified_report_iff.mpr
    ⟨image, himage, step.session.verdict_ne_refused_of_isCovered image _ hcovered⟩

/-! ## The digest that a session remembers -/

/-- Whether the digest that a session remembers is one that an earlier step vouches for. -/
def BackedBy (vouches : Step → Digest → Prop) (past : List Step) (session : Session) : Prop :=
  ∀ register, session.warmBoot = some register →
    ∃ earlier ∈ past, ∃ digest, vouches earlier digest ∧ register = session.warmRegister digest

section Backing

variable {vouches : Step → Digest → Prop} {steps past : List Step} {step : Step}

theorem backedBy_of_ladder_eq {session session' : Session}
    (hladder : session'.ladder = session.ladder) (hwarm : session'.warmBoot = session.warmBoot)
    (h : BackedBy vouches past session) : BackedBy vouches past session' := by
  intro register hregister
  rw [hwarm] at hregister
  obtain ⟨earlier, hmem, digest, hvouches, rfl⟩ := h register hregister
  refine ⟨earlier, hmem, digest, hvouches, ?_⟩
  rw [Session.warmRegister, Session.warmRegister, hladder]

/-- If a step vouches for every image that its signature covers, so does a run for the digest that
it remembers. -/
theorem backedBy_next (hcanonical : OnlyCanonicalUnlocks steps) (hrecalled : NoneRecalled steps)
    (hvouches : ∀ image, step.image? = some image → image.IsCovered step.skipHash →
      vouches step image.hashes.final)
    (hmem : step ∈ steps) (h : BackedBy vouches past step.session) :
    BackedBy vouches (past ++ [step]) step.next := by
  have hkept (hwarm : step.next.warmBoot = step.session.warmBoot) :
      BackedBy vouches (past ++ [step]) step.next := by
    intro register hregister
    obtain ⟨earlier, hearlier, hdigest⟩ :=
      backedBy_of_ladder_eq Step.next_ladder hwarm h register hregister
    exact ⟨earlier, List.mem_append_left _ hearlier, hdigest⟩
  cases himage : step.image? with
  | none => exact hkept (by rw [Step.next_of_image?_eq_none himage])
  | some image =>
    have hnext := Step.next_warmBoot himage
    by_cases hverdict : step.session.verdict image step.skipHash = .signed
    · -- the image of this step is the one remembered from now on
      have hfolded := Step.folded?_of_signed himage hverdict
      have hcovered := Step.isCovered_of_signed hverdict
        (hcanonical.folded step hmem _ hfolded) (hrecalled step hmem _ hfolded)
      rw [if_pos hverdict] at hnext
      intro register hregister
      obtain rfl := Option.some.inj (hnext.symm.trans hregister)
      refine ⟨step, List.mem_append_right _ List.mem_cons_self, image.hashes.final,
        hvouches image himage hcovered, ?_⟩
      rw [Session.warmRegister, Session.warmRegister, Step.next_ladder]
    · rw [if_neg hverdict] at hnext
      exact hkept hnext

-- The image that a step accepts has a digest that this step or an earlier one vouches for.
theorem exists_vouches_of_accepted {image : SignedImage}
    (hcanonical : OnlyCanonicalUnlocks steps) (hrecalled : NoneRecalled steps)
    (hvouches : ∀ image, step.image? = some image → image.IsCovered step.skipHash →
      vouches step image.hashes.final)
    (hmem : step ∈ steps) (h : BackedBy vouches past step.session)
    (himage : step.image? = some image)
    (hverdict : step.session.verdict image step.skipHash ≠ .refused) :
    ∃ earlier ∈ past ++ [step], vouches earlier image.hashes.final := by
  cases hcase : step.session.verdict image step.skipHash with
  | refused => exact absurd hcase hverdict
  | signed =>
    have hfolded := Step.folded?_of_signed himage hcase
    have hcovered := Step.isCovered_of_signed hcase
      (hcanonical.folded step hmem _ hfolded) (hrecalled step hmem _ hfolded)
    exact ⟨step, List.mem_append_right _ List.mem_cons_self, hvouches image himage hcovered⟩
  | warm =>
    rcases (step.session.verdict_eq_warm_iff image _).mp hcase with hsentinel | hwarm
    · refine absurd ?_ (hcanonical.register step hmem)
      rw [Step.register?, himage, Option.map_some, hsentinel]
    · -- the ladder hides the digest, but equal registers hide equal digests
      obtain ⟨earlier, hearlier, digest, hdigest, hregister⟩ := h _ hwarm
      obtain rfl := Words.xor_right_injective _ hregister
      exact ⟨earlier, List.mem_append_left _ hearlier, hdigest⟩

end Backing

/-- Whether the digest that a session remembers was signed in an earlier step. -/
def Backed (past : List Step) (session : Session) : Prop :=
  ∀ register, session.warmBoot = some register →
    ∃ earlier ∈ past, ∃ digest, earlier.Signs digest ∧ register = session.warmRegister digest

-- A step that counts the digest vouches for those that are signed.
theorem Step.signs_of_isCovered {step : Step} (hskip : step.skipHash = false)
    (image : SignedImage) (himage : step.image? = some image)
    (hcovered : image.IsCovered step.skipHash) : step.Signs image.hashes.final := by
  rw [hskip, image.isCovered_false_iff] at hcovered
  exact ⟨image, himage, rfl, hcovered⟩

theorem backed_next {steps past : List Step} {step : Step}
    (hcanonical : OnlyCanonicalUnlocks steps) (hrecalled : NoneRecalled steps)
    (hskip : step.skipHash = false) (hmem : step ∈ steps) (h : Backed past step.session) :
    Backed (past ++ [step]) step.next :=
  backedBy_next hcanonical hrecalled (Step.signs_of_isCovered hskip) hmem h

-- The image that a step accepts has the digest of an image that was signed in that step or an
-- earlier one.
theorem exists_signs_of_accepted {steps past : List Step} {step : Step} {image : SignedImage}
    (hcanonical : OnlyCanonicalUnlocks steps) (hrecalled : NoneRecalled steps)
    (hskip : step.skipHash = false) (hmem : step ∈ steps) (h : Backed past step.session)
    (himage : step.image? = some image)
    (hverdict : step.session.verdict image step.skipHash ≠ .refused) :
    ∃ earlier ∈ past ++ [step], earlier.Signs image.hashes.final :=
  exists_vouches_of_accepted hcanonical hrecalled (Step.signs_of_isCovered hskip) hmem h himage
    hverdict

/-- In a run from a new session in which no digests coincide, an image is accepted only if it, or an
image before it with the same final digest, has a valid signature. -/
theorem accepted_digest_was_signed (source : RandomSource) (ladder : Digest) (calls : List Call)
    (hskip : ∀ call ∈ calls, call.verifier.options.skipHashChecking = false)
    (hcanonical : OnlyCanonicalUnlocks (Session.history ⟨source, ladder, none⟩ calls))
    (hrecalled : NoneRecalled (Session.history ⟨source, ladder, none⟩ calls)) :
    (Session.performAll ⟨source, ladder, none⟩ calls).1.flatten =
        (Session.history ⟨source, ladder, none⟩ calls).map Step.report ∧
      ∀ past step rest, Session.history ⟨source, ladder, none⟩ calls = past ++ step :: rest →
        step.report.isVerified = true →
        ∃ image, step.image? = some image ∧ step.report.kind = .header image.family ∧
          ∃ earlier ∈ past ++ [step], earlier.Signs image.hashes.final := by
  have hchecked (step : Step) (hmem : step ∈ Session.history ⟨source, ladder, none⟩ calls) :
      step.skipHash = false := by
    obtain ⟨call, hcall, hverifier⟩ := Session.verifier_of_mem_history hmem
    rw [Step.skipHash, hverifier]
    exact hskip call hcall
  refine ⟨(Session.performAll_eq _ calls).1, fun past step rest hsplit hverified => ?_⟩
  have hmem : step ∈ Session.history ⟨source, ladder, none⟩ calls := by
    rw [hsplit]
    exact List.mem_append_right _ List.mem_cons_self
  have hbacked : Backed past step.session :=
    Session.inv_of_steps_eq (fun _ hnone => nomatch hnone)
      (fun past step hmem => backed_next hcanonical hrecalled (hchecked step hmem) hmem) hsplit
  obtain ⟨image, himage, hverdict⟩ := Step.isVerified_report_iff.mp hverified
  refine ⟨image, himage, by rw [Step.report_of_image? himage]; rfl, ?_⟩
  exact exists_signs_of_accepted hcanonical hrecalled (hchecked step hmem) hmem hbacked himage
    hverdict

/-- The sample image is accepted twice: by its signature, and then without it. -/
theorem sample_digest_was_signed :
    let calls : List Call :=
      [.candidate sampleVerifier sampleImage.bytes 0, .candidate sampleVerifier sampleImage.bytes 0]
    let history := Session.history ⟨⟨fun _ => 0⟩, .zero 8, none⟩ calls
    OnlyCanonicalUnlocks history ∧ NoneRecalled history ∧
      ∃ first second, history = [first, second] ∧ second.report.warmBoot = true ∧
        ∃ earlier ∈ [first, second], earlier.Signs sampleDigest := by
  intro calls history
  obtain ⟨image, hadmitted, -, hfinal, -, hvalid⟩ :=
    exists_admitted?_sampleImage (v := sampleVerifier) rfl sampleVerifier_takes 0 []
  rw [List.append_nil] at hadmitted
  let task : Task := ⟨sampleVerifier, ⟨0, sampleImage.bytes⟩⟩
  let start : Session := ⟨⟨fun _ => 0⟩, .zero 8, none⟩
  obtain ⟨first, second, hsplit, hfirst, hsecond, hstart, hnext, hskip, hskip'⟩ :
      ∃ first second, history = [first, second] ∧ first.image? = some image ∧
        second.image? = some image ∧ first.session = start ∧ second.session = first.next ∧
        first.skipHash = false ∧ second.skipHash = false :=
    ⟨⟨task, start⟩, ⟨task, Step.next ⟨task, start⟩⟩, rfl, hadmitted, hadmitted, rfl,
      by dsimp only, rfl, rfl⟩
  have hcovered (step : Step) (h : step.skipHash = false) : image.IsCovered step.skipHash := by
    rw [h]
    exact image.isCovered_false_iff.mpr hvalid
  have hwarm : second.session.warmUnlock image.hashes.final = true := by
    rw [hnext]
    exact Step.warmUnlock_next hfirst
      (first.session.verdict_ne_refused_of_isCovered image _ (hcovered first hskip))
  have hladder : first.session.ladder = .zero 8 ∧ second.session.ladder = .zero 8 := by
    rw [hnext, Step.next_ladder, hstart]
    exact ⟨rfl, rfl⟩
  have hcanonical : OnlyCanonicalUnlocks history := by
    apply onlyCanonicalUnlocks_of_isCovered
    rw [hsplit]
    intro step hmem image' himage'
    have hstep : step.image? = some image ∧ step.skipHash = false ∧
        step.session.ladder = .zero 8 := by
      rcases List.mem_pair.mp hmem with rfl | rfl
      · exact ⟨hfirst, hskip, hladder.1⟩
      · exact ⟨hsecond, hskip', hladder.2⟩
    obtain rfl := Option.some.inj (hstep.1.symm.trans himage')
    refine ⟨hcovered step hstep.2.1, ?_⟩
    rw [Session.warmRegister, hstep.2.2, hfinal]
    decide
  have hrecalled : NoneRecalled history := by
    unfold NoneRecalled
    rw [hsplit]
    simp only [List.forall_mem_cons, List.not_mem_nil, false_imp_iff, implies_true, and_true]
    refine ⟨fun _ _ => by rw [hstart]; exact (Option.some_ne_none _).symm, fun buffer h => ?_⟩
    obtain ⟨image', himage', hcold, -⟩ := Step.folded?_eq_some_iff.mp h
    obtain rfl := Option.some.inj (hsecond.symm.trans himage')
    exact absurd (hwarm.symm.trans hcold) (by decide)
  have hreport := Step.report_of_image? hsecond
  rw [second.session.verdict_of_warmUnlock image _ hwarm] at hreport
  obtain ⟨image', himage', -, hsigns⟩ := (accepted_digest_was_signed ⟨fun _ => 0⟩ (.zero 8) calls
    (by decide) hcanonical hrecalled).2 [first] second [] hsplit (by rw [hreport]; rfl)
  obtain rfl := Option.some.inj (hsecond.symm.trans himage')
  rw [hfinal] at hsigns
  exact ⟨hcanonical, hrecalled, first, second, hsplit, by rw [hreport]; rfl, hsigns⟩

end SignedFlash
