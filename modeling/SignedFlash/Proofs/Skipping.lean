import SignedFlash.Proofs.Boundaries
import SignedFlash.Proofs.Remembering
import SignedFlash.Proofs.Soundness

/-!
# What skipping digests leaves behind

A verifier that ignores digests accepts an image by a valid signature of any digest, and the session
then remembers the digest of the image. A verifier that counts digests trusts the session all the
same, so of what it accepts no more can be said than that an image with the same digest was accepted
in one mode or the other.
-/

namespace SignedFlash

/-- Whether a step ignores digests, and its image has the given final digest and a signature of
some digest. -/
def Step.Skips (step : Step) (digest : Digest) : Prop :=
  step.skipHash = true ∧ ∃ image, step.image? = some image ∧ image.hashes.final = digest ∧
    ∃ signed, image.resolved.key.power image.header.signature =
      encodeDigest signed image.resolved.key.isLegacy

theorem Step.signs_or_skips_of_isCovered {step : Step} (image : SignedImage)
    (himage : step.image? = some image) (hcovered : image.IsCovered step.skipHash) :
    step.Signs image.hashes.final ∨ step.Skips image.hashes.final := by
  cases hskip : step.skipHash with
  | false => exact Or.inl (signs_of_isCovered hskip image himage hcovered)
  | true =>
    obtain ⟨signed, -, hsigned⟩ := hcovered
    exact Or.inr ⟨hskip, image, himage, rfl, signed, hsigned⟩

/-- In a run from a new session in which no digests coincide, the digest that is remembered was
signed, unless an image with that digest was accepted while digests were ignored; and so was that of
every image which is accepted. -/
theorem accepted_digest_was_signed_or_skipped (source : RandomSource) (ladder : Digest)
    (calls : List Call)
    (hcanonical : OnlyCanonicalUnlocks (Session.history ⟨source, ladder, none⟩ calls))
    (hrecalled : NoneRecalled (Session.history ⟨source, ladder, none⟩ calls)) :
    (∀ register, (Session.performAll ⟨source, ladder, none⟩ calls).2.warmBoot = some register →
        ∃ step ∈ Session.history ⟨source, ladder, none⟩ calls, ∃ digest,
          (step.Signs digest ∨ step.Skips digest) ∧ register = digest.xor ladder) ∧
      ∀ past step rest, Session.history ⟨source, ladder, none⟩ calls = past ++ step :: rest →
        step.report.isVerified = true →
        ∃ image, step.image? = some image ∧ ∃ earlier ∈ past ++ [step],
          earlier.Signs image.hashes.final ∨ earlier.Skips image.hashes.final := by
  let vouches (step : Step) (digest : Digest) : Prop := step.Signs digest ∨ step.Skips digest
  have hstart : BackedBy vouches [] ⟨source, ladder, none⟩ := fun _ hnone => nomatch hnone
  have hnext (past : List Step) (step : Step)
      (hmem : step ∈ Session.history ⟨source, ladder, none⟩ calls)
      (h : BackedBy vouches past step.session) : BackedBy vouches (past ++ [step]) step.next :=
    backedBy_next hcanonical hrecalled Step.signs_or_skips_of_isCovered hmem h
  constructor
  · intro register hregister
    rw [(Session.performAll_eq _ calls).2] at hregister
    have hbacked := Session.inv_after hnext hstart
    obtain ⟨step, hmem, digest, hdigest, rfl⟩ := hbacked register hregister
    refine ⟨step, hmem, digest, hdigest, ?_⟩
    rw [Session.warmRegister, Session.ladder_after]
  · intro past step rest hsplit hverified
    obtain ⟨image, himage, hverdict⟩ := Step.isVerified_report_iff.mp hverified
    have hmem : step ∈ Session.history ⟨source, ladder, none⟩ calls := by
      rw [hsplit]
      exact List.mem_append_right _ List.mem_cons_self
    have hbacked : BackedBy vouches past step.session :=
      Session.inv_of_steps_eq hstart hnext hsplit
    exact ⟨image, himage, exists_vouches_of_accepted hcanonical hrecalled
      Step.signs_or_skips_of_isCovered hmem hbacked himage hverdict⟩

/-! ## A tampered image -/

/-- The sample image with another payload, and checksums that agree with it. -/
def tamperedSpec : ImageSpec := .new .haven DevelopmentKey.long3 (List.replicate 1024 1)

/-- The tampered image, which keeps the signature of the sample image. -/
def tamperedBytes : Bytes := tamperedSpec.signedBytes sampleCrypto sampleSignature

/-- The digest of the tampered image. -/
def tamperedDigest : Digest :=
  ⟨[0x8f446db0, 0x8c5c8062, 0x54c89836, 0x7d271ce0,
    0xfdae7b66, 0x36f7155a, 0x7440f903, 0x330f4ffc], rfl⟩

/-- The verifier that knows the key, when it ignores digests. -/
def skippingVerifier : Verifier :=
  ⟨⟨true, false, false, false⟩, knownVerifier.keys, knownVerifier.info⟩

theorem length_payload_tamperedSpec : tamperedSpec.payload.length = 1024 := List.length_replicate

theorem length_tamperedBytes : tamperedBytes.length = alignment :=
  ImageSpec.length_signedBytes length_payload_tamperedSpec _

theorem finalDigest_tamperedImage :
    (tamperedSpec.checkedHeader sampleCrypto).2 = tamperedDigest := by
  decide +kernel

-- The signature of the tampered image is one of another digest.
theorem exists_admitted?_tamperedImage {v : Verifier} (hinfo : v.info = InfoBank.erased)
    (htakes : v.Takes sampleSpec.publicKey) (offset : Nat) (rest : Bytes) :
    ∃ image, v.admitted? ⟨offset, tamperedBytes ++ rest⟩ = some image ∧
      image.hashes.final = tamperedDigest ∧ image.IsCovered true ∧ ¬image.HasValidSignature := by
  obtain ⟨image, hadmitted, hheader, -, hkey, hfinal, -⟩ :=
    v.admitted?_generated tamperedSpec sampleCrypto sampleSignature rfl
      (ImageSpec.fits_of_length_payload length_payload_tamperedSpec) hinfo htakes offset rest
  rw [finalDigest_tamperedImage] at hfinal
  have hpower : image.resolved.key.power image.header.signature =
      encodeDigest sampleDigest image.resolved.key.isLegacy := by
    have hsignature : image.header.signature = sampleSignature :=
      ImageSpec.signature_of_header_eq hheader
    rw [hkey, hsignature]
    exact power_sampleSignature
  refine ⟨image, hadmitted, hfinal, ⟨sampleDigest, Or.inl rfl, hpower⟩, fun hvalid => ?_⟩
  -- the encodings of two digests differ in the words that the digests take
  rw [SignedImage.HasValidSignature, hpower, hfinal] at hvalid
  have hword := congrArg (fun words : Number => words.getD 0) hvalid
  rw [getD_encodeDigest_of_lt _ _ (by decide), getD_encodeDigest_of_lt _ _ (by decide)] at hword
  revert hword
  decide

/-! ## Accepting the tampered image -/

section Again

variable {first second : Step} {image : SignedImage}

theorem warmUnlock_again (hfirst : first.image? = some image)
    (hnext : second.session = first.next) (hcovered : image.IsCovered first.skipHash) :
    second.session.warmUnlock image.hashes.final = true := by
  rw [hnext]
  exact Step.warmUnlock_next hfirst
    (first.session.verdict_ne_refused_of_isCovered image _ hcovered)

-- What is accepted because of what is remembered folds no buffer.
theorem folded?_again (hsecond : second.image? = some image)
    (hwarm : second.session.warmUnlock image.hashes.final = true) : second.folded? = none := by
  rw [Step.folded?, hsecond, Option.bind_some, hwarm]
  rfl

/-- An image that is accepted again needs no signature, and so no coincidence. -/
theorem accepted_again (hfirst : first.image? = some image) (hsecond : second.image? = some image)
    (hcold : first.session.warmBoot = none) (hnext : second.session = first.next)
    (hcovered : image.IsCovered first.skipHash)
    (hregister : first.session.warmRegister image.hashes.final ≠ unlockSentinel) :
    OnlyCanonicalUnlocks [first, second] ∧ NoneRecalled [first, second] ∧
      second.report.isVerified = true ∧
      second.next.warmBoot = some (first.session.warmRegister image.hashes.final) := by
  have hwarm := warmUnlock_again hfirst hnext hcovered
  have hfolded := folded?_again hsecond hwarm
  have hverdict := second.session.verdict_of_warmUnlock image second.skipHash hwarm
  have hregister' : second.session.warmRegister image.hashes.final =
      first.session.warmRegister image.hashes.final := by
    rw [hnext, Session.warmRegister, Session.warmRegister, Step.next_ladder]
  refine ⟨⟨?_, ?_⟩, ?_, ?_, ?_⟩
  · intro step hmem buffer hbuffer _
    rcases List.mem_pair.mp hmem with rfl | rfl
    · exact Step.folded?_of_isCovered hfirst hcovered hbuffer
    · cases hfolded.symm.trans hbuffer
  · intro step hmem
    rcases List.mem_pair.mp hmem with rfl | rfl
    · rw [Step.register?, hfirst, Option.map_some]
      exact fun hsentinel => hregister (Option.some.inj hsentinel)
    · rw [Step.register?, hsecond, Option.map_some, hregister']
      exact fun hsentinel => hregister (Option.some.inj hsentinel)
  · intro step hmem buffer hbuffer
    rcases List.mem_pair.mp hmem with rfl | rfl
    · rw [hcold]
      exact (Option.some_ne_none _).symm
    · cases hfolded.symm.trans hbuffer
  · refine Step.isVerified_report_iff.mpr ⟨image, hsecond, ?_⟩
    rw [hverdict]
    decide
  · rw [Step.next_warmBoot hsecond, hverdict, if_neg (by decide), hnext]
    exact (Step.accepted_of_isCovered hfirst hcovered hregister).2

end Again

theorem sites_tamperedBytes : sites tamperedBytes 0 = [⟨0, tamperedBytes⟩] := by
  rw [sites_zero, sitesFrom_image length_tamperedBytes (by decide)]
  rfl

/-- A scan that ignores digests, and a scan that counts them. -/
def tamperedCalls : List Call :=
  [.scan skippingVerifier tamperedBytes 0, .scan knownVerifier tamperedBytes 0]

-- There is no signature of the tampered image's digest, and yet it is remembered and accepted.
theorem history_tamperedCalls :
    let fresh := Session.start ⟨fun _ => 0⟩
    let history := fresh.history tamperedCalls
    OnlyCanonicalUnlocks history ∧ NoneRecalled history ∧
      (fresh.performAll tamperedCalls).2.warmBoot = some (tamperedDigest.xor fresh.ladder) ∧
      ∃ image first second, history = [first, second] ∧ first.image? = some image ∧
        second.image? = some image ∧ second.skipHash = false ∧
        second.report.isVerified = true ∧ image.hashes.final = tamperedDigest ∧
        ¬image.HasValidSignature := by
  intro fresh history
  let task : Task := ⟨skippingVerifier, ⟨0, tamperedBytes⟩⟩
  let task' : Task := ⟨knownVerifier, ⟨0, tamperedBytes⟩⟩
  obtain ⟨image, hskipping, hfinal, hcovered, hinvalid⟩ :=
    exists_admitted?_tamperedImage (v := skippingVerifier) rfl (takes_of_keys rfl) 0 []
  obtain ⟨image', hcounting, -⟩ :=
    exists_admitted?_tamperedImage (v := knownVerifier) rfl (takes_of_keys rfl) 0 []
  rw [List.append_nil] at hskipping hcounting
  obtain rfl : image' = image := by
    obtain ⟨hfound, -⟩ := (Verifier.admitted?_eq_some_iff _).mp hskipping
    obtain ⟨hfound', -⟩ := (Verifier.admitted?_eq_some_iff _).mp hcounting
    have hinfo : skippingVerifier.info = knownVerifier.info := rfl
    have hkeys : skippingVerifier.keys = knownVerifier.keys := rfl
    rw [Verifier.image?_congr hinfo hkeys] at hfound
    exact Option.some.inj (hfound'.symm.trans hfound)
  let first : Step := ⟨task, fresh⟩
  let second : Step := ⟨task', first.next⟩
  have htasks : tamperedCalls.flatMap Call.tasks = [task, task'] := by
    rw [tamperedCalls, List.flatMap_cons, List.flatMap_cons, Call.tasks, Call.tasks,
      sites_tamperedBytes]
    rfl
  have hhistory : history = [first, second] := by
    unfold history
    rw [Session.history, htasks]
    rfl
  have hafter : (fresh.performAll tamperedCalls).2 = second.next := by
    rw [(Session.performAll_eq _ _).2, htasks]
    rfl
  have hfirst : first.image? = some image' := hskipping
  have hsecond : second.image? = some image' := hcounting
  have hregister : first.session.warmRegister image'.hashes.final =
      tamperedDigest.xor fresh.ladder := by
    rw [Session.warmRegister, hfinal]
  have hfresh : first.session.warmRegister image'.hashes.final ≠ unlockSentinel := by
    rw [hregister, ladder_start_still]
    decide
  have hnext : second.session = first.next := by dsimp only [second]
  obtain ⟨hcanonical, hrecalled, hverified, hremembered⟩ :=
    accepted_again hfirst hsecond rfl hnext hcovered hfresh
  rw [← hhistory] at hcanonical hrecalled
  exact ⟨hcanonical, hrecalled, hafter ▸ hremembered.trans (congrArg some hregister),
    image', first, second, hhistory, hfirst, hsecond, rfl, hverified, hfinal, hinvalid⟩

/-- The digest of the tampered image was remembered while digests were ignored. -/
theorem tampered_digest_was_skipped :
    let history := (Session.start ⟨fun _ => 0⟩).history tamperedCalls
    OnlyCanonicalUnlocks history ∧ NoneRecalled history ∧
      ∃ first second, history = [first, second] ∧ second.report.isVerified = true ∧
        ∃ earlier ∈ [first, second],
          earlier.Signs tamperedDigest ∨ earlier.Skips tamperedDigest := by
  intro history
  obtain ⟨hcanonical, hrecalled, -, image, first, second, hhistory, -, hsecond, -, hverified,
    hfinal, -⟩ := history_tamperedCalls
  obtain ⟨-, haccepted⟩ := accepted_digest_was_signed_or_skipped
    (RandomSource.skip ⟨fun _ => 0⟩ 8) (Session.start ⟨fun _ => 0⟩).ladder tamperedCalls
    hcanonical hrecalled
  obtain ⟨image', himage', hvouched⟩ := haccepted [first] second [] hhistory hverified
  obtain rfl := Option.some.inj (hsecond.symm.trans himage')
  rw [hfinal] at hvouched
  exact ⟨hcanonical, hrecalled, first, second, hhistory, hverified, hvouched⟩

/-- A scan that counts digests accepts an image of whose digest there is no signature, because the
scan before it, which did not, left that digest behind. -/
theorem skipped_digest_is_accepted :
    let fresh := Session.start ⟨fun _ => 0⟩
    let history := fresh.history tamperedCalls
    OnlyCanonicalUnlocks history ∧ NoneRecalled history ∧
      (∀ step ∈ history, ∀ digest, ¬step.Signs digest) ∧
      (fresh.performAll tamperedCalls).2.warmBoot = some (tamperedDigest.xor fresh.ladder) ∧
      ∃ first second, history = [first, second] ∧ second.skipHash = false ∧
        second.report.isVerified = true := by
  intro fresh history
  obtain ⟨hcanonical, hrecalled, hremembered, image, first, second, hhistory, hfirst, hsecond,
    hskip, hverified, -, hinvalid⟩ := history_tamperedCalls
  have hunsigned {step : Step} (himage : step.image? = some image) (digest : Digest) :
      ¬step.Signs digest := by
    rintro ⟨image', himage', -, hvalid⟩
    obtain rfl := Option.some.inj (himage.symm.trans himage')
    exact hinvalid hvalid
  refine ⟨hcanonical, hrecalled, ?_, hremembered, first, second, hhistory, hskip, hverified⟩
  rw [show history = [first, second] from hhistory]
  intro step hmem
  rcases List.mem_pair.mp hmem with rfl | rfl
  · exact hunsigned hfirst
  · exact hunsigned hsecond

end SignedFlash
