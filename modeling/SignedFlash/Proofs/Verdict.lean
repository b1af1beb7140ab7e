import SignedFlash.Verify
import SignedFlash.Proofs.Unlocking

/-!
# The verdict on an image

A site is admitted if there is a whole image that passes the rules on checksums and known keys. At
every other site the session neither counts nor changes. On an admitted image the session gives one
of three verdicts, and the verdict alone decides the report and what becomes of the session.
-/

namespace SignedFlash

/-- A whole image: its header, its digests and the key its signature is to be checked with. -/
@[ext] structure SignedImage where
  header : Header
  family : Family
  hashes : HashChain
  resolved : ResolvedKey

namespace SignedImage

variable (image : SignedImage)

/-- Whether the signature is one of the image's final digest. -/
def HasValidSignature : Prop :=
  image.resolved.key.power image.header.signature =
    encodeDigest image.hashes.final image.resolved.key.isLegacy

/-- Whether the signature covers the image or, if the digest does not count, anything. -/
def IsCovered (skipHash : Bool) : Prop :=
  image.resolved.key.Covers image.header.signature image.hashes.final skipHash

/-- The buffer that verifying the signature folds. -/
def folded (skipHash : Bool) : Number :=
  image.resolved.key.foldedBuffer image.header.signature image.hashes.final skipHash

theorem isCovered_false_iff : image.IsCovered false ↔ image.HasValidSignature :=
  image.resolved.key.covers_false_iff _ _

theorem folded_eq_canonicalBuffer_iff (skipHash : Bool) :
    image.folded skipHash = canonicalBuffer ↔ image.IsCovered skipHash :=
  image.resolved.key.foldedBuffer_eq_canonicalBuffer_iff _ _ _

end SignedImage

/-- What a session makes of an admitted image. -/
inductive Verdict where
  -- It is accepted without its signature.
  | warm
  -- It is accepted by its signature.
  | signed
  | refused
  deriving DecidableEq

/-- The verdict on an admitted image. -/
def Session.verdict (session : Session) (image : SignedImage) (skipHash : Bool) : Verdict :=
  if session.warmUnlock image.hashes.final then .warm
  else if session.unlocked (Sha256.digestWords (image.folded skipHash)) then .signed
  else .refused

/-! ## Admission -/

theorem HashChain.check_isOk_iff {hashes : HashChain} {h : Header} :
    (hashes.check h).isOk = true ↔ hashes.checksums h = ⟨true, true, true⟩ := by
  unfold HashChain.check
  obtain ⟨image, fuses, info⟩ := hashes.checksums h
  cases image <;> cases fuses <;> cases info <;> decide

/-- Whether a report is one on which the signature has no bearing. -/
structure Report.IsSilent (r : Report) : Prop where
  disposition : r.disposition ≠ .verified
  unlocked : r.unlocked = false
  warmBoot : r.warmBoot = false
  debugBuffer : r.debugBuffer = none

namespace Verifier

variable (v : Verifier)

/-- The image that the header at a site describes, if there is one and it is whole. -/
def image? (site : Site) : Option SignedImage :=
  match site.candidate with
  | .ok (.header h) =>
    match h.family?, site.bytes.first? h.imageSize.toNat with
    | some family, some bytes =>
      match HashChain.compute v.info h bytes with
      | .ok hashes => some ⟨h, family, hashes, v.keys.resolve h⟩
      | .error _ => none
    | _, _ => none
  | _ => none

/-- Whether an image passes the rules that come before its signature. -/
def admits (image : SignedImage) : Bool :=
  (v.options.skipHashChecking || (image.hashes.check image.header).isOk) &&
    !(v.options.strictKeys && image.resolved.source.isUnverified)

/-- The image at a site whose signature is looked at. -/
def admitted? (site : Site) : Option SignedImage := (v.image? site).filter v.admits

/-- The report on an admitted image. -/
def verdictReport (offset : Nat) (image : SignedImage) (verdict : Verdict) : Report where
  offset := offset
  kind := .header image.family
  disposition :=
    if verdict = .refused then .rejected .signatureMismatch else .verified
  hashHeads := some image.hashes.heads
  checksums := image.hashes.checksums image.header
  unlocked := verdict != .refused
  keySource := some image.resolved.source
  warmBoot := verdict == .warm
  diagnostics := if v.options.verbose then some image.hashes else none
  debugBuffer :=
    match verdict with
    | .warm => none
    | .signed =>
      if v.options.debugBuffer then some (image.folded v.options.skipHashChecking) else none
    | .refused =>
      if v.options.debugBuffer || v.options.verbose then
        some (image.folded v.options.skipHashChecking)
      else none

-- The options do not matter to whether there is an image.
theorem image?_congr {v v' : Verifier} (hinfo : v'.info = v.info) (hkeys : v'.keys = v.keys)
    (site : Site) : v'.image? site = v.image? site := by
  unfold image?
  rw [hinfo, hkeys]

theorem image?_eq_some_iff {site : Site} {image : SignedImage} :
    v.image? site = some image ↔
      site.candidate = .ok (.header image.header) ∧
      image.header.family? = some image.family ∧
      (∃ bytes, site.bytes.first? image.header.imageSize.toNat = some bytes ∧
        HashChain.compute v.info image.header bytes = .ok image.hashes) ∧
      image.resolved = v.keys.resolve image.header := by
  constructor
  · intro h
    unfold image? at h
    split at h
    · rename_i hd hcandidate
      split at h
      · rename_i family bytes hfamily hbytes
        split at h
        · rename_i hashes hhashes
          obtain rfl := Option.some.inj h
          exact ⟨hcandidate, hfamily, ⟨bytes, hbytes, hhashes⟩, rfl⟩
        · exact nomatch h
      · exact nomatch h
    · exact nomatch h
  · rintro ⟨hcandidate, hfamily, ⟨bytes, hbytes, hhashes⟩, hresolved⟩
    simp only [image?, hcandidate, hfamily, hbytes, hhashes, ← hresolved]

theorem admitted?_eq_some_iff {site : Site} {image : SignedImage} :
    v.admitted? site = some image ↔ v.image? site = some image ∧ v.admits image = true :=
  Option.filter_eq_some_iff

/-! ## Offsets -/

theorem offset_verifySigned (session : Session) (h : Header) (hashes : HashChain)
    (key : PublicKey) (report : Report) (log : List LogLine) :
    (v.verifySigned session h hashes key report log).report.offset = report.offset := by
  unfold verifySigned
  split
  · rfl
  · dsimp only
    split <;> rfl

theorem offset_verifyHashed (session : Session) (h : Header) (hashes : HashChain)
    (report : Report) (log : List LogLine) :
    (v.verifyHashed session h hashes report log).report.offset = report.offset := by
  unfold verifyHashed
  dsimp only
  split
  · split
    · rfl
    · exact v.offset_verifySigned session h hashes _ _ _
  · exact v.offset_verifySigned session h hashes _ _ _

theorem offset_verifyHeader (session : Session) (site : Site) (family : Family) (h : Header) :
    (v.verifyHeader session site family h).report.offset = site.offset := by
  unfold verifyHeader
  dsimp only
  split
  · rfl
  split
  · rfl
  split
  · split
    · exact v.offset_verifyHashed session h _ _ _
    · rfl
  · exact v.offset_verifyHashed session h _ _ _

/-- Every report is about the offset of its site. -/
theorem offset_verifySite (session : Session) (site : Site) :
    (v.verifySite session site).report.offset = site.offset := by
  unfold verifySite
  split
  · rfl
  · rfl
  · split
    · rfl
    · exact v.offset_verifyHeader session site _ _

/-! ## One verification -/

/-- The report on an admitted image before its signature is looked at. -/
def openReport (offset : Nat) (image : SignedImage) : Report :=
  { Report.brief offset (.header image.family) .verified with
    hashHeads := some image.hashes.heads
    checksums := image.hashes.checksums image.header
    diagnostics := if v.options.verbose then some image.hashes else none
    keySource := some image.resolved.source }

theorem verifySigned_verdict (session : Session) (offset : Nat) (image : SignedImage)
    (log : List LogLine) :
    let result := v.verifySigned session image.header image.hashes image.resolved.key
      (v.openReport offset image) log
    result.report = v.verdictReport offset image
        (session.verdict image v.options.skipHashChecking) ∧
      result.session.ladder = session.ladder ∧
      result.session.warmBoot =
        if session.verdict image v.options.skipHashChecking = .signed then
          some (session.warmRegister image.hashes.final)
        else session.warmBoot := by
  intro result
  unfold result
  unfold verifySigned Session.verdict
  have hfolded : image.resolved.key.foldedBuffer image.header.signature image.hashes.final
      v.options.skipHashChecking = image.folded v.options.skipHashChecking := rfl
  by_cases hwarm : session.warmUnlock image.hashes.final = true
  · rw [if_pos hwarm, if_pos hwarm]
    exact ⟨rfl, rfl, rfl⟩
  · rw [if_neg hwarm, if_neg hwarm]
    simp only [Session.verifySignature_unlocked, Session.verifySignature_buffer, hfolded]
    by_cases hsigned :
        session.unlocked (Sha256.digestWords (image.folded v.options.skipHashChecking)) = true
    · simp only [hsigned, if_true, Bool.not_true, Bool.and_false, Bool.or_false]
      exact ⟨rfl, rfl, rfl⟩
    · simp only [hsigned, Bool.false_eq_true, if_false, Bool.not_false, Bool.and_true]
      exact ⟨rfl, rfl, rfl⟩

theorem verifyHashed_of_known (session : Session) (offset : Nat) (image : SignedImage)
    (log : List LogLine)
    (hkey : (v.options.strictKeys && image.resolved.source.isUnverified) = false)
    (hresolved : image.resolved = v.keys.resolve image.header) :
    ∃ log', v.verifyHashed session image.header image.hashes
        { v.openReport offset image with keySource := none } log =
      v.verifySigned session image.header image.hashes image.resolved.key
        (v.openReport offset image) log' := by
  unfold verifyHashed
  rw [← hresolved]
  -- an unknown key that is taken adds a line to the log, and nothing else
  by_cases hunverified : image.resolved.source.isUnverified = true
  · have hstrict : v.options.strictKeys = false := by
      rwa [hunverified, Bool.and_true] at hkey
    simp only [hunverified, if_true, hstrict, Bool.false_eq_true, if_false]
    exact ⟨_, rfl⟩
  · simp only [hunverified, Bool.false_eq_true, if_false]
    exact ⟨_, rfl⟩

theorem verifyHashed_of_unknown (image : SignedImage) (r : Report) (log : List LogLine)
    (hkey : (v.options.strictKeys && image.resolved.source.isUnverified) = true)
    (hresolved : image.resolved = v.keys.resolve image.header) :
    ∃ log', ∀ session, v.verifyHashed session image.header image.hashes r log =
      ⟨{ r with disposition := .rejected .keyNotFound }, session, log'⟩ := by
  obtain ⟨hstrict, hunverified⟩ := Bool.and_eq_true_iff.mp hkey
  unfold verifyHashed
  simp only [← hresolved, hstrict, hunverified, if_true]
  exact ⟨_, fun _ => rfl⟩

-- At an admitted site the image's signature is looked at.
theorem verifySite_eq_verifySigned {site : Site} {image : SignedImage}
    (h : v.admitted? site = some image) (session : Session) :
    ∃ log, v.verifySite session site =
      v.verifySigned session image.header image.hashes image.resolved.key
        (v.openReport site.offset image) log := by
  obtain ⟨himage, hadmits⟩ := v.admitted?_eq_some_iff.mp h
  obtain ⟨hcandidate, hfamily, ⟨bytes, hbytes, hhashes⟩, hresolved⟩ :=
    v.image?_eq_some_iff.mp himage
  rw [admits, Bool.and_eq_true, Bool.not_eq_true'] at hadmits
  obtain ⟨hchecksums, hkey⟩ := hadmits
  unfold verifySite
  rw [hcandidate]
  simp only [hfamily]
  unfold verifyHeader
  simp only [hbytes, hhashes]
  split
  · -- wrong checksums pass only if they are ignored
    rename_i fault hcheck
    have hskip : v.options.skipHashChecking = true := by
      rwa [hcheck, Except.isOk, Except.toBool, Bool.or_false] at hchecksums
    rw [if_pos hskip]
    exact v.verifyHashed_of_known session site.offset image _ hkey hresolved
  · exact v.verifyHashed_of_known session site.offset image _ hkey hresolved

/-- Whether verifying at a site accepts nothing, and neither asks nor changes the session. -/
def Unmoved (site : Site) : Prop :=
  ∃ report log, (∀ session, v.verifySite session site = ⟨report, session, log⟩) ∧
    report.IsSilent

/-- The report on an image that is refused before its signature is looked at. -/
def refusedReport (offset : Nat) (image : SignedImage) (fault : Fault) : Report :=
  { v.openReport offset image with keySource := none, disposition := .rejected fault }

-- An image that is not admitted is refused for its checksums or for its key, in every session.
theorem verifySite_of_not_admits {site : Site} {image : SignedImage}
    (himage : v.image? site = some image) (hadmits : ¬v.admits image = true) :
    ∃ fault log, (fault = .keyNotFound ∨ image.hashes.check image.header = .error fault) ∧
      ∀ session, v.verifySite session site =
        ⟨v.refusedReport site.offset image fault, session, log⟩ := by
  obtain ⟨hcandidate, hfamily, ⟨bytes, hbytes, hhashes⟩, hresolved⟩ :=
    v.image?_eq_some_iff.mp himage
  unfold verifySite
  rw [hcandidate]
  simp only [hfamily]
  unfold verifyHeader
  simp only [hbytes, hhashes]
  by_cases hkey : (v.options.strictKeys && image.resolved.source.isUnverified) = true
  · -- an unknown key is refused, unless the checksums are refused first
    have hunknown (log : List LogLine) :
        ∃ log', ∀ session, v.verifyHashed session image.header image.hashes
          { v.openReport site.offset image with keySource := none } log =
            ⟨v.refusedReport site.offset image .keyNotFound, session, log'⟩ :=
      v.verifyHashed_of_unknown image _ log hkey hresolved
    cases image.hashes.check image.header with
    | error fault =>
      by_cases hskip : v.options.skipHashChecking = true
      · obtain ⟨log', h⟩ := hunknown _
        simp only [hskip, if_true]
        exact ⟨.keyNotFound, log', Or.inl rfl, h⟩
      · simp only [hskip]
        exact ⟨fault, _, Or.inr rfl, fun _ => rfl⟩
    | ok _ =>
      obtain ⟨log', h⟩ := hunknown _
      exact ⟨.keyNotFound, log', Or.inl rfl, h⟩
  · -- the key is known, so it is the checksums that are refused
    rw [admits, Bool.and_eq_true, Bool.not_eq_true', Bool.eq_false_of_not_eq_true hkey] at hadmits
    cases hcheck : image.hashes.check image.header with
    | error fault =>
      have hskip : ¬v.options.skipHashChecking = true := fun hskip =>
        hadmits ⟨by rw [hskip, Bool.true_or], rfl⟩
      simp only [hskip]
      exact ⟨fault, _, Or.inr rfl, fun _ => rfl⟩
    | ok _ => exact absurd ⟨by rw [hcheck]; exact Bool.or_true _, rfl⟩ hadmits

theorem unmoved_of_not_admits {site : Site} {image : SignedImage}
    (himage : v.image? site = some image) (hadmits : ¬v.admits image = true) : v.Unmoved site := by
  obtain ⟨fault, log, -, h⟩ := v.verifySite_of_not_admits himage hadmits
  exact ⟨_, log, h, nofun, rfl, rfl, rfl⟩

theorem unmoved_of_image?_eq_none {site : Site} (h : v.image? site = none) : v.Unmoved site := by
  unfold Unmoved verifySite
  unfold image? at h
  cases hcandidate : site.candidate with
  | error fault => exact ⟨_, _, fun _ => rfl, nofun, rfl, rfl, rfl⟩
  | ok candidate =>
    cases candidate with
    | manifest m => exact ⟨_, _, fun _ => rfl, nofun, rfl, rfl, rfl⟩
    | header hd =>
      rw [hcandidate] at h
      cases hfamily : hd.family? with
      | none =>
        simp only [hfamily]
        exact ⟨_, _, fun _ => rfl, nofun, rfl, rfl, rfl⟩
      | some family =>
        simp only [hfamily]
        unfold verifyHeader
        cases hbytes : site.bytes.first? hd.imageSize.toNat with
        | none => exact ⟨_, _, fun _ => rfl, nofun, rfl, rfl, rfl⟩
        | some bytes =>
          simp only [hfamily, hbytes] at h
          cases hhashes : HashChain.compute v.info hd bytes with
          | error fault =>
            simp only [hhashes]
            exact ⟨_, _, fun _ => rfl, nofun, rfl, rfl, rfl⟩
          | ok hashes =>
            rw [hhashes] at h
            exact nomatch h

theorem unmoved_of_not_admitted {site : Site} (h : v.admitted? site = none) :
    v.Unmoved site := by
  cases himage : v.image? site with
  | none => exact v.unmoved_of_image?_eq_none himage
  | some image =>
    rw [admitted?, himage, Option.filter_some] at h
    exact v.unmoved_of_not_admits himage fun hadmits => by rw [if_pos hadmits] at h; exact nomatch h

/-- At an admitted site the verdict decides the report and what the session remembers. -/
theorem verifySite_of_admitted {site : Site} {image : SignedImage}
    (h : v.admitted? site = some image) (session : Session) :
    (v.verifySite session site).report = v.verdictReport site.offset image
        (session.verdict image v.options.skipHashChecking) ∧
      (v.verifySite session site).session.ladder = session.ladder ∧
      (v.verifySite session site).session.warmBoot =
        if session.verdict image v.options.skipHashChecking = .signed then
          some (session.warmRegister image.hashes.final)
        else session.warmBoot := by
  obtain ⟨log, hsigned⟩ := v.verifySite_eq_verifySigned h session
  rw [hsigned]
  exact v.verifySigned_verdict session site.offset image log

theorem isVerified_verdictReport (offset : Nat) (image : SignedImage) (verdict : Verdict) :
    (v.verdictReport offset image verdict).isVerified = true ↔ verdict ≠ .refused := by
  cases verdict with
  | refused => exact ⟨nofun, fun h => absurd rfl h⟩
  | _ => exact ⟨fun _ => nofun, fun _ => rfl⟩

-- A report accepts an image only if the site is admitted and the session does not refuse it.
theorem isVerified_verifySite_iff (session : Session) (site : Site) :
    (v.verifySite session site).report.isVerified = true ↔
      ∃ image, v.admitted? site = some image ∧
        session.verdict image v.options.skipHashChecking ≠ .refused := by
  constructor
  · intro hverified
    cases hadmitted : v.admitted? site with
    | none =>
      obtain ⟨report, log, h, hsilent⟩ := v.unmoved_of_not_admitted hadmitted
      rw [h, Report.isVerified, beq_iff_eq] at hverified
      exact absurd hverified hsilent.disposition
    | some image =>
      refine ⟨image, rfl, ?_⟩
      rwa [(v.verifySite_of_admitted hadmitted session).1, isVerified_verdictReport] at hverified
  · rintro ⟨image, hadmitted, hverdict⟩
    rw [(v.verifySite_of_admitted hadmitted session).1, isVerified_verdictReport]
    exact hverdict

end Verifier

/-! ## Reasons for a verdict -/

namespace Session

variable (session : Session) (image : SignedImage) (skipHash : Bool)

theorem verdict_eq_warm_iff_warmUnlock :
    session.verdict image skipHash = .warm ↔ session.warmUnlock image.hashes.final = true := by
  unfold verdict
  split
  · rename_i h
    exact ⟨fun _ => h, fun _ => rfl⟩
  · rename_i h
    refine ⟨fun hverdict => ?_, fun hwarm => absurd hwarm h⟩
    split at hverdict <;> exact nomatch hverdict

theorem verdict_eq_warm_iff :
    session.verdict image skipHash = .warm ↔
      session.warmRegister image.hashes.final = unlockSentinel ∨
        session.warmBoot = some (session.warmRegister image.hashes.final) := by
  rw [verdict_eq_warm_iff_warmUnlock, ← unlocked_eq_true_iff]
  rfl

theorem verdict_of_warmUnlock (h : session.warmUnlock image.hashes.final = true) :
    session.verdict image skipHash = .warm := if_pos h

theorem unlocked_of_verdict_eq_signed (h : session.verdict image skipHash = .signed) :
    session.warmUnlock image.hashes.final = false ∧
      (Sha256.digestWords (image.folded skipHash) = unlockSentinel ∨
        session.warmBoot = some (Sha256.digestWords (image.folded skipHash))) := by
  unfold verdict at h
  split at h
  · exact nomatch h
  · rename_i hwarm
    split at h
    · rename_i hunlocked
      exact ⟨Bool.eq_false_of_not_eq_true hwarm, (session.unlocked_eq_true_iff _).mp hunlocked⟩
    · exact nomatch h

-- An image that its signature covers is refused in no session.
theorem verdict_ne_refused_of_isCovered (h : image.IsCovered skipHash) :
    session.verdict image skipHash ≠ .refused := by
  have hunlocked : session.unlocked (Sha256.digestWords (image.folded skipHash)) = true := by
    rw [(image.folded_eq_canonicalBuffer_iff skipHash).mpr h, unlocked_eq_true_iff]
    exact Or.inl digestWords_canonicalBuffer
  unfold verdict
  rw [if_pos hunlocked]
  split <;> exact nofun

end Session

end SignedFlash
