import SignedFlash.Proofs.Admission
import SignedFlash.Proofs.KeyTables

/-!
# What reports say

A report is made in one of five ways, and each of them fills in the fields that it knows about. So
the fields of a report agree with each other and with what there is at its offset: a report that
accepts an image has all that belongs to one, and a report that passes over an offset has nothing
but a reason.
-/

namespace SignedFlash

/-! ## Classes of faults -/

theorem Header.faultClass_of_check {h : Header} {fault : Fault} (hcheck : h.check = .error fault) :
    fault.faultClass = .structuralInvalid := by
  unfold check at hcheck
  repeat' split at hcheck
  all_goals cases hcheck
  all_goals rfl

theorem Manifest.faultClass_of_check {m : Manifest} {fault : Fault}
    (hcheck : m.check = .error fault) : fault.faultClass = .structuralInvalid := by
  unfold check at hcheck
  repeat' split at hcheck
  all_goals cases hcheck
  all_goals rfl

-- A manifest that obeys the rules is of a known kind.
theorem Manifest.exists_kind?_of_check {m : Manifest} (hcheck : m.check = .ok ()) :
    ∃ kind, m.kind? = some kind := by
  unfold check at hcheck
  cases hkind : m.kind? with
  | none =>
    rw [hkind] at hcheck
    exact nomatch hcheck
  | some kind => exact ⟨kind, rfl⟩

theorem HashChain.faultClass_of_check {hashes : HashChain} {h : Header} {fault : Fault}
    (hcheck : hashes.check h = .error fault) : fault.faultClass = .checksumMismatch := by
  unfold check at hcheck
  dsimp only at hcheck
  repeat' split at hcheck
  all_goals cases hcheck
  all_goals rfl

namespace Candidate

theorem faultClass_of_ofHeaderWindow {window : Bytes} {fault : Fault}
    (h : ofHeaderWindow window = .error fault) : fault.faultClass = .structuralInvalid := by
  unfold ofHeaderWindow at h
  dsimp only at h
  cases hcheck : (Header.decode window).check with
  | error fault' =>
    rw [hcheck] at h
    obtain rfl := Except.error.inj h
    exact Header.faultClass_of_check hcheck
  | ok _ =>
    rw [hcheck] at h
    exact nomatch h

theorem faultClass_of_ofManifestWindow {window : Bytes} {fault : Fault}
    (h : ofManifestWindow window = .error fault) : fault.faultClass = .structuralInvalid := by
  unfold ofManifestWindow at h
  dsimp only at h
  cases hcheck : (Manifest.decode window).check with
  | error fault' =>
    rw [hcheck] at h
    obtain rfl := Except.error.inj h
    exact Manifest.faultClass_of_check hcheck
  | ok _ =>
    rw [hcheck] at h
    exact nomatch h

-- The reason for which nothing is found at an offset is always one of structure.
theorem faultClass_of_parse {buf : Bytes} {offset : Nat} {fault : Fault}
    (h : parse buf offset = .error fault) : fault.faultClass = .structuralInvalid := by
  unfold parse ofFront at h
  split at h
  · cases h
    rfl
  rcases ofWindow_eq_error h with rfl | hheader | hmanifest
  · rfl
  · exact faultClass_of_ofHeaderWindow hheader
  · exact faultClass_of_ofManifestWindow hmanifest

end Candidate

/-! ## The ways in which reports are made -/

namespace Verifier

variable (v : Verifier) (session : Session) (buf : Bytes) (offset : Nat)

/-- The ways in which a report on an offset of a buffer is made. -/
inductive Reports : Report → Prop where
  -- Neither a header nor a manifest is found.
  | noStructure {fault : Fault} (hparse : Candidate.parse buf offset = .error fault) :
    Reports (.skipped offset fault)
  | manifest {m : Manifest} {kind : ManifestKind}
    (hparse : Candidate.parse buf offset = .ok (.manifest m)) (hkind : m.kind? = some kind) :
    Reports (.brief offset (.manifest kind) (.rejected .manifestUnsupported))
  -- The image that a header describes runs past the end of the buffer.
  | truncated {h : Header} {family : Family}
    (hparse : Candidate.parse buf offset = .ok (.header h)) (hfamily : h.family? = some family)
    (hpast : buf.length < offset + h.imageSize.toNat) :
    Reports (.brief offset (.header family) (.skipped .imageOutOfBounds))
  -- The image is refused for its checksums or for its key.
  | refused {image : SignedImage} {fault : Fault}
    (himage : v.IsImage buf offset image.header image.hashes)
    (hnone : v.admitted? (Site.of buf offset) = none)
    (hfault : fault = .keyNotFound ∨ image.hashes.check image.header = .error fault) :
    Reports (v.refusedReport offset image fault)
  -- The signature or the session decides on the image.
  | judged {image : SignedImage} {verdict : Verdict}
    (hadmitted : v.admitted? (Site.of buf offset) = some image)
    (hverdict : session.verdict image v.options.skipHashChecking = verdict) :
    Reports (v.verdictReport offset image verdict)

/-- Every report is made in one of these ways. -/
theorem reports_verifyCandidate :
    v.Reports session buf offset (v.verifyCandidate session buf offset).report := by
  have hsite : (Site.of buf offset).candidate = Candidate.parse buf offset :=
    Site.candidate_of buf offset
  cases hparse : Candidate.parse buf offset with
  | error fault =>
    have hreport : (v.verifyCandidate session buf offset).report = .skipped offset fault := by
      unfold verifyCandidate verifySite
      rw [hsite, hparse]
      rfl
    rw [hreport]
    exact .noStructure hparse
  | ok candidate =>
    obtain ⟨hroom, hvalid⟩ := Candidate.parse_eq_ok hparse
    cases candidate with
    | manifest m =>
      obtain ⟨kind, hkind⟩ := Manifest.exists_kind?_of_check hvalid
      have hreport : (v.verifyCandidate session buf offset).report =
          .brief offset (.manifest kind) (.rejected .manifestUnsupported) := by
        unfold verifyCandidate verifySite
        rw [hsite, hparse]
        simp only [verifyManifest, hkind]
        rfl
      rw [hreport]
      exact .manifest hparse hkind
    | header h =>
      obtain ⟨family, hfamily⟩ :=
        Option.isSome_iff_exists.mp (Header.check_eq_ok_iff.mp hvalid).1
      by_cases hwhole : offset + h.imageSize.toNat ≤ buf.length
      · have hlength : h.imageSize.toNat ≤ ((buf.drop offset).take h.imageSize.toNat).length := by
          rw [List.length_take, List.length_drop]
          omega
        obtain ⟨hashes, hhashes⟩ := HashChain.exists_compute_eq_ok v.info hvalid hlength
        have himage : v.IsImage buf offset h hashes := ⟨hparse, hwhole, hhashes⟩
        obtain ⟨_, -, hfound⟩ := himage.exists_image?
        cases hadmitted : v.admitted? (Site.of buf offset) with
        | some image =>
          have hreport := (v.verifySite_of_admitted hadmitted session).1
          rw [verifyCandidate, hreport]
          exact .judged hadmitted rfl
        | none =>
          have hadmits : ¬v.admits ⟨h, _, hashes, v.keys.resolve h⟩ = true := fun hadmits =>
            nomatch hadmitted.symm.trans (v.admitted?_eq_some_iff.mpr ⟨hfound, hadmits⟩)
          obtain ⟨fault, log, hfault, hrefused⟩ := v.verifySite_of_not_admits hfound hadmits
          rw [verifyCandidate, hrefused]
          exact .refused himage hadmitted hfault
      · have hnone : (Site.of buf offset).bytes.first? h.imageSize.toNat = none := by
          rw [Option.eq_none_iff_forall_ne_some]
          intro bytes hbytes
          obtain ⟨hlength, -⟩ := Bytes.first?_eq_some_iff.mp hbytes
          rw [Site.of, List.length_drop] at hlength
          omega
        have hreport : (v.verifyCandidate session buf offset).report =
            .brief offset (.header family) (.skipped .imageOutOfBounds) := by
          unfold verifyCandidate verifySite
          rw [hsite, hparse]
          simp only [hfamily]
          unfold verifyHeader
          rw [hnone]
          rfl
        rw [hreport]
        exact .truncated hparse hfamily (by omega)

/-! ## What the fields of a report have to do with each other -/

/-- Whether the public key arithmetic runs for the image at an offset: there is an admitted image,
which the session does not accept without its signature. -/
def ChecksSignature : Prop :=
  ∃ h hashes, v.IsAdmitted buf offset h hashes ∧ session.warmUnlock hashes.final = false

/-- The laws for a report on an offset of a buffer. -/
structure IsConsistent (r : Report) : Prop where
  verified_iff : r.disposition = .verified ↔ r.unlocked = true
  warmBoot : r.warmBoot = true → r.disposition = .verified ∧ r.debugBuffer = none
  -- an accepted image is whole, and has digests and a key
  verified : r.disposition = .verified →
    (∃ h family, Candidate.parse buf offset = .ok (.header h) ∧ h.family? = some family ∧
        r.kind = .header family ∧
        (v.options.strictKeys = true → ∃ entry, v.keys.get? h.keyId = some entry ∧
          entry.keyId = h.keyId ∧ r.keySource = some (.table entry.name entry.family entry.role))) ∧
      r.hashHeads.isSome = true ∧ r.keySource.isSome = true ∧
      (v.options.skipHashChecking = false → r.checksums = ⟨true, true, true⟩)
  skipped_iff : (∃ fault, r.disposition = .skipped fault) ↔
    (∃ fault, Candidate.parse buf offset = .error fault) ∨
      ∃ h, Candidate.parse buf offset = .ok (.header h) ∧
        buf.length < offset + h.imageSize.toNat
  -- nothing is known of an offset that is passed over
  skipped : ∀ fault, r.disposition = .skipped fault →
    fault.faultClass = .structuralInvalid ∧ r.hashHeads = none ∧ r.keySource = none ∧
      r.diagnostics = none ∧ r.debugBuffer = none
  rejected : ∀ fault, r.disposition = .rejected fault →
    fault.faultClass = .checksumMismatch ∨ fault.faultClass = .keyNotFound ∨
      fault.faultClass = .signatureMismatch
  manifest : ∀ m, Candidate.parse buf offset = .ok (.manifest m) →
    r.disposition = .rejected .manifestUnsupported
  diagnostics_iff : r.diagnostics.isSome = true ↔
    v.options.verbose = true ∧ r.hashHeads.isSome = true
  debugBuffer_iff : r.debugBuffer.isSome = true ↔
    v.ChecksSignature session buf offset ∧
      (v.options.debugBuffer = true ∨ v.options.verbose = true ∧ r.unlocked = false)
  -- a structure that is not passed over lies inside the buffer
  inside : (∀ fault, r.disposition ≠ .skipped fault) → offset + structureSize ≤ buf.length

variable {v session buf offset}

-- An image that the buffer holds is neither missing nor cut off.
theorem IsImage.not_skipped {h : Header} {hashes : HashChain}
    (himage : v.IsImage buf offset h hashes) :
    ¬((∃ fault, Candidate.parse buf offset = .error fault) ∨
      ∃ h, Candidate.parse buf offset = .ok (.header h) ∧
        buf.length < offset + h.imageSize.toNat) := by
  rw [himage.header]
  rintro (⟨fault, hfault⟩ | ⟨h', hheader, hpast⟩)
  · exact nomatch hfault
  · obtain rfl := Candidate.header.inj (Except.ok.inj hheader)
    have hwhole := himage.whole
    omega

theorem not_checksSignature (hnone : v.admitted? (Site.of buf offset) = none) :
    ¬v.ChecksSignature session buf offset := by
  rw [ChecksSignature, exists_isAdmitted_iff, hnone]
  rintro ⟨image, himage, -⟩
  exact nomatch himage

-- The signature of an admitted image is checked unless the session accepts the image without it.
theorem checksSignature_iff {image : SignedImage} (skipHash : Bool)
    (hadmitted : v.admitted? (Site.of buf offset) = some image) :
    v.ChecksSignature session buf offset ↔ session.verdict image skipHash ≠ .warm := by
  rw [ChecksSignature, exists_isAdmitted_iff, hadmitted, Ne,
    Session.verdict_eq_warm_iff_warmUnlock, Bool.not_eq_true]
  simp

namespace Reports

variable {r : Report}

theorem verified_iff (h : v.Reports session buf offset r) :
    r.disposition = .verified ↔ r.unlocked = true := by
  cases h with
  | @judged image verdict _ _ => cases verdict <;> simp [verdictReport]
  | _ => exact ⟨nofun, nofun⟩

theorem warmBoot (h : v.Reports session buf offset r) (hwarm : r.warmBoot = true) :
    r.disposition = .verified ∧ r.debugBuffer = none := by
  cases h with
  | @judged image verdict _ _ => cases verdict <;> simp [verdictReport] at hwarm ⊢
  | _ => exact nomatch hwarm

theorem verified (h : v.Reports session buf offset r) (hverified : r.disposition = .verified) :
    (∃ h family, Candidate.parse buf offset = .ok (.header h) ∧ h.family? = some family ∧
        r.kind = .header family ∧
        (v.options.strictKeys = true → ∃ entry, v.keys.get? h.keyId = some entry ∧
          entry.keyId = h.keyId ∧ r.keySource = some (.table entry.name entry.family entry.role))) ∧
      r.hashHeads.isSome = true ∧ r.keySource.isSome = true ∧
      (v.options.skipHashChecking = false → r.checksums = ⟨true, true, true⟩) := by
  cases h with
  | @judged image verdict hadmitted _ =>
    obtain ⟨himage, hfamily, hresolved⟩ := admitted?_of_eq_some_iff.mp hadmitted
    refine ⟨⟨image.header, image.family, himage.header, hfamily, rfl, fun hstrict => ?_⟩, rfl, rfl,
      fun hskip => ?_⟩
    · have hknown : (v.keys.get? image.header.keyId).isSome = true :=
        himage.known.resolve_left (by simp [hstrict])
      obtain ⟨entry, hentry⟩ := Option.isSome_iff_exists.mp hknown
      refine ⟨entry, hentry, KeyTable.keyId_of_get? hentry, ?_⟩
      show some image.resolved.source = _
      rw [hresolved, KeyTable.resolve, hentry]
    · exact himage.checksums.resolve_left (by simp [hskip])
  | _ => exact nomatch hverified

theorem skipped_iff (h : v.Reports session buf offset r) :
    (∃ fault, r.disposition = .skipped fault) ↔
      (∃ fault, Candidate.parse buf offset = .error fault) ∨
        ∃ h, Candidate.parse buf offset = .ok (.header h) ∧
          buf.length < offset + h.imageSize.toNat := by
  cases h with
  | noStructure hparse => exact ⟨fun _ => Or.inl ⟨_, hparse⟩, fun _ => ⟨_, rfl⟩⟩
  | manifest hparse _ =>
    rw [hparse]
    exact ⟨nofun, nofun⟩
  | truncated hparse _ hpast => exact ⟨fun _ => Or.inr ⟨_, hparse, hpast⟩, fun _ => ⟨_, rfl⟩⟩
  | refused himage _ _ => exact ⟨nofun, fun hskipped => absurd hskipped himage.not_skipped⟩
  | @judged image verdict hadmitted _ =>
    obtain ⟨himage, -⟩ := admitted?_of_eq_some_iff.mp hadmitted
    refine ⟨?_, fun hskipped => absurd hskipped himage.not_skipped⟩
    cases verdict <;> exact nofun

theorem skipped (h : v.Reports session buf offset r) {fault : Fault}
    (hskipped : r.disposition = .skipped fault) :
    fault.faultClass = .structuralInvalid ∧ r.hashHeads = none ∧ r.keySource = none ∧
      r.diagnostics = none ∧ r.debugBuffer = none := by
  cases h with
  | noStructure hparse =>
    obtain rfl := Disposition.skipped.inj hskipped
    exact ⟨Candidate.faultClass_of_parse hparse, rfl, rfl, rfl, rfl⟩
  | truncated _ _ _ =>
    obtain rfl := Disposition.skipped.inj hskipped
    exact ⟨rfl, rfl, rfl, rfl, rfl⟩
  | @judged image verdict _ _ => cases verdict <;> exact nomatch hskipped
  | _ => exact nomatch hskipped

theorem rejected (h : v.Reports session buf offset r) {fault : Fault}
    (hrejected : r.disposition = .rejected fault) :
    fault.faultClass = .checksumMismatch ∨ fault.faultClass = .keyNotFound ∨
      fault.faultClass = .signatureMismatch := by
  cases h with
  | manifest _ _ =>
    obtain rfl := Disposition.rejected.inj hrejected
    exact Or.inr (Or.inr rfl)
  | refused _ _ hfault =>
    obtain rfl := Disposition.rejected.inj hrejected
    rcases hfault with rfl | hcheck
    · exact Or.inr (Or.inl rfl)
    · exact Or.inl (HashChain.faultClass_of_check hcheck)
  | @judged image verdict _ _ =>
    cases verdict with
    | refused =>
      obtain rfl := Disposition.rejected.inj hrejected
      exact Or.inr (Or.inr rfl)
    | _ => exact nomatch hrejected
  | _ => exact nomatch hrejected

theorem manifest_rejected (h : v.Reports session buf offset r) {m : Manifest}
    (hm : Candidate.parse buf offset = .ok (.manifest m)) :
    r.disposition = .rejected .manifestUnsupported := by
  cases h with
  | noStructure hparse => exact nomatch hm.symm.trans hparse
  | manifest _ _ => rfl
  | truncated hparse _ _ => exact nomatch hm.symm.trans hparse
  | refused himage _ _ => exact nomatch hm.symm.trans himage.header
  | judged hadmitted _ =>
    exact nomatch hm.symm.trans (admitted?_of_eq_some_iff.mp hadmitted).1.header

theorem diagnostics_iff (h : v.Reports session buf offset r) :
    r.diagnostics.isSome = true ↔ v.options.verbose = true ∧ r.hashHeads.isSome = true := by
  cases h with
  | refused _ _ _ => simp [refusedReport, openReport]
  | judged _ _ => simp [verdictReport]
  | _ => exact ⟨nofun, fun h => nomatch h.2⟩

theorem debugBuffer_iff (h : v.Reports session buf offset r) :
    r.debugBuffer.isSome = true ↔ v.ChecksSignature session buf offset ∧
      (v.options.debugBuffer = true ∨ v.options.verbose = true ∧ r.unlocked = false) := by
  cases h with
  | noStructure hparse =>
    exact ⟨nofun, fun ⟨⟨_, _, himage, _⟩, _⟩ => nomatch hparse.symm.trans himage.header⟩
  | manifest hparse _ =>
    exact ⟨nofun, fun ⟨⟨_, _, himage, _⟩, _⟩ => nomatch hparse.symm.trans himage.header⟩
  | truncated hparse _ hpast =>
    refine ⟨nofun, fun ⟨⟨_, _, himage, _⟩, _⟩ => absurd ?_ himage.not_skipped⟩
    exact Or.inr ⟨_, hparse, hpast⟩
  | refused _ hnone _ => exact ⟨nofun, fun h => absurd h.1 (not_checksSignature hnone)⟩
  | @judged image verdict hadmitted hverdict =>
    rw [checksSignature_iff v.options.skipHashChecking hadmitted, hverdict]
    cases verdict <;> simp [verdictReport]

theorem inside (h : v.Reports session buf offset r)
    (hkept : ∀ fault, r.disposition ≠ .skipped fault) : offset + structureSize ≤ buf.length := by
  cases h with
  | noStructure _ => exact absurd rfl (hkept _)
  | manifest hparse _ => exact (Candidate.parse_eq_ok hparse).1
  | truncated _ _ _ => exact absurd rfl (hkept _)
  | refused himage _ _ => exact (Candidate.parse_eq_ok himage.header).1
  | judged hadmitted _ =>
    exact (Candidate.parse_eq_ok (admitted?_of_eq_some_iff.mp hadmitted).1.header).1

end Reports

end Verifier

/-- The report on every offset of every buffer is consistent, whatever the session and the verifier
are. -/
theorem report_is_consistent (v : Verifier) (session : Session) (buf : Bytes) (offset : Nat) :
    v.IsConsistent session buf offset (v.verifyCandidate session buf offset).report := by
  have hreports := v.reports_verifyCandidate session buf offset
  constructor
  case verified_iff => exact hreports.verified_iff
  case warmBoot => exact hreports.warmBoot
  case verified => exact hreports.verified
  case skipped_iff => exact hreports.skipped_iff
  case skipped => exact fun _ => hreports.skipped
  case rejected => exact fun _ => hreports.rejected
  case manifest => exact fun _ => hreports.manifest_rejected
  case diagnostics_iff => exact hreports.diagnostics_iff
  case debugBuffer_iff => exact hreports.debugBuffer_iff
  case inside => exact hreports.inside

end SignedFlash
