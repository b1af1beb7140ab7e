import SignedFlash.Proofs.Admission
import SignedFlash.Proofs.Command
import SignedFlash.Proofs.KeyTables
import SignedFlash.Proofs.Reloading
import SignedFlash.Proofs.Rescans
import SignedFlash.Proofs.WarmBoot

/-!
# The exponents in a dump

The exponent of a dumped key comes from one image: the first whose header has the key id and a
usable key. Where that image says the right exponent, every image with the key that is verified by
its own key alone is verified with the dumped keys too. Where it is damaged, the dump says 3, and
later images that need 65537 are refused.
-/

namespace SignedFlash

/-- The verifier that knows the given keys and refuses all others. -/
def Verifier.strict (keys : KeyTable) : Verifier :=
  ⟨{ strictKeys := true }, keys, InfoBank.erased⟩

/-- Whether the image with a header at an offset is verified in a new session by its own key alone,
with a given exponent. -/
def VerifiesAlone (source : RandomSource) (buf : Bytes) (offset : Nat) (h : Header)
    (exponent : Exponent) : Prop :=
  ∃ entry, KeyEntry.new entry.name entry.family entry.role h.keyId h.key.toList exponent.value =
      .ok entry ∧
    ((Verifier.strict ⟨[entry]⟩).verifyCandidate (Session.start source) buf
      offset).report.isVerified = true

/-- The exponent that a key could have instead. -/
def Exponent.other : Exponent → Exponent
  | .three => .fermatFour
  | .fermatFour => .three

theorem Exponent.value_injective {a b : Exponent} (h : a.value = b.value) : a = b := by
  cases a <;> cases b <;> first | rfl | exact absurd h (by decide)

/-! ## Verifying with the same key -/

section

variable {buf : Bytes} {offset : Nat} {h : Header}

theorem KeyTable.key_resolve {keys : KeyTable} {entry : KeyEntry}
    (hentry : keys.get? h.keyId = some entry) : (keys.resolve h).key = entry.key := by
  rw [resolve, hentry]

/-- A strict verifier that verifies an image in a new session does so in every session with the same
ladder, and so does every other one that has the same key for it. -/
theorem isVerified_strict_of_key {keys keys' : KeyTable} {entry entry' : KeyEntry}
    (hheader : Candidate.parse buf offset = .ok (.header h))
    (hentry : keys.get? h.keyId = some entry) (hentry' : keys'.get? h.keyId = some entry')
    (hkey : entry'.key = entry.key)
    {source : RandomSource} {session : Session}
    (hladder : session.ladder = (Session.start source).ladder)
    (hverified : ((Verifier.strict keys).verifyCandidate (Session.start source) buf
      offset).report.isVerified = true) :
    ((Verifier.strict keys').verifyCandidate session buf offset).report.isVerified = true := by
  obtain ⟨image, himage, hverdict⟩ := (Verifier.isVerified_verifySite_iff _ _ _).mp hverified
  obtain ⟨hadmitted, hfamily, hresolved⟩ := Verifier.admitted?_of_eq_some_iff.mp himage
  obtain rfl : image.header = h := by
    have hparse := hadmitted.header.symm.trans hheader
    cases hparse
    rfl
  let image' : SignedImage := { image with resolved := keys'.resolve image.header }
  have hsameKey : image'.resolved.key = image.resolved.key := by
    rw [hresolved, KeyTable.key_resolve hentry', hkey]
    exact (KeyTable.key_resolve hentry).symm
  have himage' : (Verifier.strict keys').admitted? (Site.of buf offset) = some image' :=
    Verifier.admitted?_of_eq_some_iff.mpr
      ⟨⟨⟨hadmitted.header, hadmitted.whole, hadmitted.digests⟩, hadmitted.checksums,
        Or.inr (by rw [Verifier.strict, hentry']; rfl)⟩, hfamily, rfl⟩
  -- a new session remembers nothing, so that only the ladder counts besides the signature
  have hverdict' : session.verdict image' false ≠ .refused := by
    have hregister : session.warmRegister image.hashes.final =
        (Session.start source).warmRegister image.hashes.final := by
      rw [Session.warmRegister, Session.warmRegister, hladder]
    have hfolded : image'.folded false = image.folded false := by
      rw [SignedImage.folded, SignedImage.folded, hsameKey]
    have hnew (digest : Digest) : (Session.start source).warmBoot ≠ some digest :=
      (Option.some_ne_none digest).symm
    rw [Session.verdict_ne_refused_iff, SignedImage.Unlocks] at hverdict ⊢
    rw [hfolded, hregister]
    rcases hverdict with (hwarm | hold) | (hunlocks | hold)
    · exact Or.inl (Or.inl hwarm)
    · exact absurd hold (hnew _)
    · exact Or.inr (Or.inl hunlocks)
    · exact absurd hold (hnew _)
  exact (Verifier.isVerified_verifySite_iff _ _ _).mpr ⟨image', himage', hverdict'⟩

theorem KeyTable.get?_singleton (entry : KeyEntry) :
    KeyTable.get? ⟨[entry]⟩ entry.keyId = some entry := by
  simp [get?]

namespace VerifiesAlone

variable {source : RandomSource} {exponent : Exponent}

theorem hasUsableKey (halone : VerifiesAlone source buf offset h exponent) : h.HasUsableKey := by
  obtain ⟨entry, hentry, -⟩ := halone
  exact (Header.hasUsableKey_of_entry hentry).1

/-- An image that is verified by its own key alone is verified in every session with the same
ladder, by every table that has that key. -/
theorem isVerified (halone : VerifiesAlone source buf offset h exponent)
    (hheader : Candidate.parse buf offset = .ok (.header h)) {keys : KeyTable} {entry : KeyEntry}
    (hentry : keys.get? h.keyId = some entry) (hkey : entry.key = h.keyWith exponent)
    {session : Session} (hladder : session.ladder = (Session.start source).ladder) :
    ((Verifier.strict keys).verifyCandidate session buf offset).report.isVerified = true := by
  obtain ⟨alone, halone, hverified⟩ := halone
  have hown := (Header.hasUsableKey_of_entry halone).2
  have hkeyId : h.keyId = alone.keyId := by rw [hown]; rfl
  have hsame : entry.key = alone.key := by rw [hkey, hown]
  refine isVerified_strict_of_key hheader ?_ hentry hsame hladder hverified
  rw [hkeyId, KeyTable.get?_singleton]

end VerifiesAlone

-- The exponent that a dump finds is 65537 exactly if the image is verified alone with it.
theorem checkedExponent_eq_iff (hheader : Candidate.parse buf offset = .ok (.header h))
    (husable : h.HasUsableKey) (source : RandomSource) (family : Family) (role : KeyRole) :
    checkedExponent source (Site.of buf offset) h family role = .fermatFour ↔
      VerifiesAlone source buf offset h .fermatFour := by
  let entry : KeyEntry := ⟨"e65537 check", family, role, h.keyWith .fermatFour⟩
  have hchecked : checkedExponent source (Site.of buf offset) h family role = .fermatFour ↔
      ((Verifier.strict ⟨[entry]⟩).verifyCandidate (Session.start source) buf
        offset).report.isVerified = true := by
    show (if ((Verifier.strict ⟨[entry]⟩).verifyCandidate (Session.start source) buf
      offset).report.isVerified = true then Exponent.fermatFour else .three) = .fermatFour ↔ _
    split
    case isTrue hverified => exact ⟨fun _ => hverified, fun _ => rfl⟩
    case isFalse hverified => exact ⟨nofun, fun h => absurd h hverified⟩
  rw [hchecked]
  constructor
  · exact fun hverified => ⟨entry, husable.entry _ _ _ _, hverified⟩
  · exact fun halone => halone.isVerified hheader (KeyTable.get?_singleton entry) rfl rfl

theorem checkedExponent_eq_three (hheader : Candidate.parse buf offset = .ok (.header h))
    (husable : h.HasUsableKey) {source : RandomSource} (family : Family) (role : KeyRole)
    (hnot : ¬VerifiesAlone source buf offset h .fermatFour) :
    checkedExponent source (Site.of buf offset) h family role = .three := by
  cases hfound : checkedExponent source (Site.of buf offset) h family role with
  | three => rfl
  | fermatFour =>
    exact absurd ((checkedExponent_eq_iff hheader husable source family role).mp hfound) hnot

end

/-! ## The dumped table -/

variable {source : RandomSource} {buf : Bytes}

theorem key_of_toSetting {entry : KeyEntry} {h : Header} {family : Family} {exponent : Exponent}
    (hsetting : entry.toSetting = KeySetting.of h family exponent) :
    entry.key = h.keyWith exponent := by
  have hkeyId := congrArg KeySetting.keyId hsetting
  have hexponent := congrArg KeySetting.exponent hsetting
  have hmodulus := congrArg KeySetting.modulus hsetting
  exact PublicKey.ext (Option.some.inj hkeyId) (Words.ext (Option.some.inj hmodulus))
    (Exponent.value_injective (Option.some.inj hexponent))

/-- Of a table made from the keys of a dump, each key id leads to the key of the first header with
that key id and a usable key, with the exponent that was found there. -/
theorem get?_of_dumpImage (hlength : buf.length ≤ maxLength) {table : KeyTable}
    (hsettings : table.entries.map KeyEntry.toSetting = (dumpImage source buf).1.keys) {first : Nat}
    {h : Header} (hfirst : IsFirstWithKey buf first h) :
    ∃ family role entry, table.get? h.keyId = some entry ∧
      entry.key = h.keyWith (checkedExponent source (Site.of buf first) h family role) := by
  obtain ⟨family, hfamily⟩ := hfirst.exists_family
  have hmem := (mem_keys_dumpImage_iff source hlength).mpr ⟨first, h, family, hfirst, hfamily, rfl⟩
  rw [← hsettings] at hmem
  obtain ⟨entry, hentry, hsetting⟩ := List.mem_map.mp hmem
  have hkey := key_of_toSetting hsetting
  have hkeyId : entry.keyId = h.keyId := congrArg PublicKey.keyId hkey
  refine ⟨family, (family.sectionAt h.roBase).keyRole, entry, ?_, hkey⟩
  rw [← hkeyId]
  exact KeyTable.get?_eq_some (keyIds_nodup_of_dumpImage hlength hsettings) hentry

/-- Whether headers with one key id have one modulus. -/
def SharesKeys (buf : Bytes) : Prop :=
  ∀ offset h offset' h', IsHeaderAt buf offset h → IsHeaderAt buf offset' h' →
    h'.keyId = h.keyId → h'.key = h.key

/-- Whether the image of the first header with a key id is verified alone with exponent 65537. -/
def FirstTakesFermatFour (source : RandomSource) (buf : Bytes) (keyId : Word) : Prop :=
  ∃ first h, IsHeaderAt buf first h ∧ h.keyId = keyId ∧
    (∀ before other, before < first → IsHeaderAt buf before other → other.keyId ≠ keyId) ∧
    VerifiesAlone source buf first h .fermatFour

-- The first header with a key id that is verified alone is the first with a usable key.
theorem FirstTakesFermatFour.verifiesAlone {keyId : Word}
    (htakes : FirstTakesFermatFour source buf keyId) {first : Nat} {h : Header}
    (hfirst : IsFirstWithKey buf first h) (hkeyId : h.keyId = keyId) :
    VerifiesAlone source buf first h .fermatFour := by
  obtain ⟨first', h', hheader', hkeyId', hbefore, halone⟩ := htakes
  have hle : first' ≤ first := Nat.le_of_not_lt fun hlt =>
    hbefore first h hlt hfirst.toIsHeaderAt hkeyId
  have hge : first ≤ first' := Nat.le_of_not_lt fun hlt =>
    hfirst.first first' h' hlt hheader' (hkeyId'.trans hkeyId.symm) halone.hasUsableKey
  obtain rfl := Nat.le_antisymm hle hge
  obtain rfl := hfirst.toIsHeaderAt.unique hheader'
  exact halone

/-- Every boundary has a report, made in some session with the ladder of the scan. -/
theorem exists_report_scan (v : Verifier) (session : Session) (hlength : buf.length ≤ maxLength)
    {offset : Nat} (haligned : alignment ∣ offset) (hlt : offset < buf.length) :
    ∃ r ∈ (v.scan session buf 0).reports, ∃ session', session'.ladder = session.ladder ∧
      r = (v.verifyCandidate session' buf offset).report := by
  have hmem := (mem_tasks_scan_iff (v := v) hlength).mpr ⟨offset, haligned, hlt, rfl⟩
  rw [← session.map_task_steps (Call.scan v buf 0).tasks] at hmem
  obtain ⟨step, hstep, htask⟩ := List.mem_map.mp hmem
  refine ⟨step.report, ?_, step.session, Session.ladder_of_mem_steps hstep, ?_⟩
  · rw [Verifier.reports_scan]
    exact List.mem_map_of_mem hstep
  · obtain ⟨task, session'⟩ := step
    obtain rfl : task = ⟨v, Site.of buf offset⟩ := htask
    rfl

/-- An image that is verified by its own key alone is verified with the dumped keys, provided that
no image with its key is verified alone with the other exponent and, if it needs 65537, that the
first image with its key shows so. The dump may draw from another source than the sessions that
verify. -/
theorem dumped_keys_verify (buf : Bytes) (hlength : buf.length ≤ maxLength)
    (hshared : SharesKeys buf) (drawn source : RandomSource) (offset : Nat) (h : Header)
    (exponent : Exponent) (hheader : IsHeaderAt buf offset h)
    (halone : VerifiesAlone source buf offset h exponent)
    (hother : ∀ offset' h', IsHeaderAt buf offset' h' → h'.keyId = h.keyId →
      ¬VerifiesAlone drawn buf offset' h' exponent.other)
    (htakes : exponent = .fermatFour → FirstTakesFermatFour drawn buf h.keyId)
    (session : Session) (hladder : session.ladder = (Session.start source).ladder)
    (reader : KeyFileReader) :
    ∃ table, (⟨{}, (dumpImage drawn buf).1.keys⟩ : Settings).keyTable reader = .ok table ∧
      ∃ r ∈ ((Verifier.strict table).scan session buf 0).reports,
        r.offset = offset ∧ r.isVerified = true := by
  obtain ⟨table, htable, hsettings⟩ := exists_keyTable_dumpImage drawn hlength reader
  obtain ⟨first, h', hfirst, hkeyId⟩ := hheader.exists_first halone.hasUsableKey
  obtain ⟨family, role, entry, hentry, hkey⟩ := get?_of_dumpImage hlength hsettings hfirst
  have hexponent : checkedExponent drawn (Site.of buf first) h' family role = exponent := by
    cases exponent with
    | three =>
      exact checkedExponent_eq_three hfirst.parses hfirst.usable family role
        (hother first h' hfirst.toIsHeaderAt hkeyId)
    | fermatFour =>
      exact (checkedExponent_eq_iff hfirst.parses hfirst.usable drawn family role).mpr
        ((htakes rfl).verifiesAlone hfirst hkeyId)
  have hown : entry.key = h.keyWith exponent := by
    rw [hkey, hexponent, Header.keyWith, Header.keyWith, hkeyId,
      hshared offset h first h' hheader hfirst.toIsHeaderAt hkeyId]
  obtain ⟨r, hr, session', hladder', rfl⟩ := exists_report_scan (Verifier.strict table) session
    hlength hheader.aligned hheader.lt
  refine ⟨table, htable, _, hr, Verifier.offset_verifySite _ _ _, ?_⟩
  exact halone.isVerified hheader.parses (hkeyId ▸ hentry) hown (hladder'.trans hladder)

/-! ## A good image and an unsigned one -/

-- A natural number in Montgomery form is raised to the public exponent.
theorem PublicKey.power_natCast {key : PublicKey} (hinverse : key.montgomery.IsConsistent)
    (hodd : Odd key.modulus.toNat) (s : Nat) :
    key.power (.ofNat 96 (s * radix % key.modulus.toNat)) =
      .ofNat 96 (s ^ key.exponent.value.toNat % key.modulus.toNat) := by
  have hpower := power_ofNat hinverse hodd s
  rwa [← Nat.cast_mul, ← Nat.cast_pow, ← Int.natCast_emod, ← Int.natCast_emod, Int.toNat_natCast,
    Int.toNat_natCast] at hpower

/-- A spec with another exponent for its key. The header does not tell the exponent. -/
def ImageSpec.withExponent (spec : ImageSpec) (exponent : Exponent) : ImageSpec :=
  { spec with key := { spec.key with exponent := exponent } }

/-- A number that gives the encoded digest of the sample image if raised to 65537. -/
def fermatRoot : Number := ⟨[
  0xe9a11fba, 0xfdc8643a, 0xbe00b9a9, 0x6821dd17, 0xc491395f, 0x1e8bd1a4, 0x3c516105, 0xca4bdbd7,
  0x7a5fbcca, 0x66065ce9, 0x7a9025c3, 0x3aebeffd, 0xe7b3ff90, 0x21b54081, 0xc9a2ffac, 0xb3eb5978,
  0x49942a1f, 0x0c74dfdf, 0x8ad581f8, 0xf624bbfa, 0x8ef3001b, 0x99ae8130, 0x52c1123f, 0xea2b85a3,
  0x38ffabbc, 0x6949361e, 0x98283192, 0x80d34ec0, 0xff5ea14c, 0x48bc05d0, 0x16370731, 0x93cb67cb,
  0x01dbc899, 0xeee38f03, 0x45eafb0a, 0x36745d4c, 0x5d010279, 0xa4b5245b, 0xece88ebb, 0x6efdd155,
  0xd5d4dad2, 0xef16650e, 0x0904444d, 0x1f11c2d3, 0x777c621f, 0x23fb394c, 0x731e72a7, 0x2799e888,
  0x48a5c53c, 0xcfc9e3b8, 0xc449ca07, 0xc199a86b, 0x1f61a02d, 0x29a61ca0, 0xdf5525fd, 0xf2b5585e,
  0x784b9d9e, 0xa31dc65a, 0x49563d87, 0x2a755428, 0x677d43b0, 0x773cabff, 0xba849560, 0xd0c872dc,
  0x3ca75076, 0xb870aeb6, 0xc1bce43f, 0x3766fbb2, 0x205b52db, 0x8c8842ce, 0x30488270, 0xed302dba,
  0x5bc943ef, 0x8f87fedb, 0x6ca4b585, 0xa955f83f, 0xecb0dbbb, 0x4bac9e56, 0x1304e803, 0x6e10a2cc,
  0x085757cf, 0x15f468db, 0x99a1fe97, 0xb0272f9f, 0x8e2c1de0, 0x531b3f78, 0x04d6d687, 0x292029be,
  0x6a31d821, 0x77151dfd, 0x646fc499, 0x450e3bb6, 0x70e7590c, 0x5c549c45, 0x95a38cfb, 0x62df5797],
  rfl⟩

/-- The signature of the sample image for the exponent 65537. -/
def fermatSignature : Number :=
  .ofNat 96 (fermatRoot.toNat * radix % sampleSpec.publicKey.modulus.toNat)

/-- The sample image with one signature, and then with another. -/
def samplePair (first second : Number) : Bytes :=
  sampleSpec.signedBytes sampleCrypto first ++ sampleSpec.signedBytes sampleCrypto second

/-- The digest of the buffer that is folded for the sample image with the given signature. -/
def sampleFolded (exponent : Exponent) (signature : Number) : Digest :=
  Sha256.digestWords
    ((sampleSpec.withExponent exponent).publicKey.foldedBuffer signature sampleDigest false)

section

variable (exponent : Exponent)

theorem montgomery_sampleSpec :
    (sampleSpec.withExponent exponent).publicKey.montgomery.IsConsistent ∧
      Odd (sampleSpec.withExponent exponent).publicKey.modulus.toNat :=
  have hinverse : sampleSpec.publicKey.montgomery.IsConsistent := by decide
  have hodd : Odd sampleSpec.publicKey.modulus.toNat := Words.odd_toNat (by decide)
  ⟨hinverse, hodd⟩

theorem power_fermatSignature :
    (sampleSpec.withExponent exponent).publicKey.power fermatSignature =
      .ofNat 96 (fermatRoot.toNat ^ exponent.value.toNat %
        sampleSpec.publicKey.modulus.toNat) := by
  obtain ⟨hinverse, hodd⟩ := montgomery_sampleSpec exponent
  exact PublicKey.power_natCast hinverse hodd fermatRoot.toNat

-- Without a signature the exponent makes no difference.
theorem sampleFolded_zero : sampleFolded exponent (.zero 96) = unsignedDigest := by
  obtain ⟨hinverse, hodd⟩ := montgomery_sampleSpec exponent
  have hpower : (sampleSpec.withExponent exponent).publicKey.power (.zero 96) =
      sampleSpec.publicKey.power (.zero 96) := by
    rw [power_zero_sampleSpec, PublicKey.power_eq_iff hinverse hodd]
    have hzero : (Words.zero 96).toNat = 0 := by decide +kernel
    have hvalue : (sampleSpec.withExponent exponent).publicKey.exponent.value.toNat ≠ 0 := by
      cases exponent <;> decide
    rw [hzero, Nat.zero_mul, zero_pow hvalue]
    exact ⟨hodd.pos, rfl⟩
  rw [← digestWords_unsigned, sampleFolded, PublicKey.foldedBuffer, PublicKey.foldedBuffer,
    PublicKey.liftedPower, PublicKey.liftedPower, hpower]
  rfl

theorem sampleFolded_zero_ne : sampleFolded exponent (.zero 96) ≠ unlockSentinel := by
  rw [sampleFolded_zero]
  decide

end

theorem sampleFolded_fermatFour : sampleFolded .fermatFour fermatSignature = unlockSentinel := by
  have hcovers : (sampleSpec.withExponent .fermatFour).publicKey.Covers fermatSignature sampleDigest
      false := by
    rw [PublicKey.covers_false_iff, power_fermatSignature]
    decide +kernel
  rw [sampleFolded, (PublicKey.foldedBuffer_eq_canonicalBuffer_iff _ _ _ _).mpr hcovers]
  exact digestWords_canonicalBuffer

theorem sampleFolded_three : sampleFolded .three fermatSignature ≠ unlockSentinel := by
  have hlegacy : (sampleSpec.withExponent .three).publicKey.isLegacy = false := by decide
  rw [sampleFolded, PublicKey.foldedBuffer, PublicKey.liftedPower, hlegacy, power_fermatSignature]
  decide +kernel

/-- Where the sample image stands, a new session goes by its signature. -/
theorem isVerified_sample_iff {keys : KeyTable} {entry : KeyEntry} {exponent : Exponent}
    (hentry : keys.get? sampleSpec.key.keyId = some entry)
    (hkey : entry.key = (sampleSpec.withExponent exponent).publicKey) (signature : Number)
    (offset : Nat) (rest : Bytes) {session : Session}
    (hladder : session.ladder = (Session.start ⟨fun _ => 0⟩).ladder)
    (hcold : session.warmBoot = none) :
    (Step.report ⟨⟨Verifier.strict keys,
        ⟨offset, sampleSpec.signedBytes sampleCrypto signature ++ rest⟩⟩, session⟩).isVerified =
        true ↔
      sampleFolded exponent signature = unlockSentinel := by
  obtain ⟨image, hadmitted, hheader, -, hresolved, hfinal, -⟩ :=
    (Verifier.strict keys).admitted?_generated (sampleSpec.withExponent exponent) sampleCrypto
      signature rfl (ImageSpec.fits_of_length_payload length_payload_sampleSpec) rfl
      (Or.inl ⟨entry, hentry, hkey⟩) offset rest
  have hdigest : image.hashes.final = sampleDigest := hfinal.trans finalDigest_sampleImage
  have hsignature : image.header.signature = signature := ImageSpec.signature_of_header_eq hheader
  have hfolded : Sha256.digestWords (image.folded false) = sampleFolded exponent signature := by
    rw [SignedImage.folded, hresolved, hsignature, hdigest, sampleFolded]
  have hregister : session.warmRegister sampleDigest ≠ unlockSentinel := by
    rw [Session.warmRegister, hladder]
    exact warmRegister_sampleDigest
  have hverdict : session.verdict image false ≠ .refused ↔
      sampleFolded exponent signature = unlockSentinel := by
    rw [Session.verdict_ne_refused_iff, SignedImage.Unlocks, hfolded, hdigest, hcold]
    simp [hregister]
  rw [← hverdict, Step.isVerified_report_iff]
  constructor
  · rintro ⟨found, hfound, haccepted⟩
    obtain rfl := Option.some.inj (hadmitted.symm.trans hfound)
    exact haccepted
  · exact fun haccepted => ⟨image, hadmitted, haccepted⟩

theorem hasUsableKey_sample (signature : Number) :
    (sampleSpec.signedHeader sampleCrypto signature).HasUsableKey :=
  have hodd : sampleSpec.key.modulus.getD 0 &&& 1 ≠ 0 := by decide
  have hinverse : sampleSpec.key.keyId * sampleSpec.key.modulus.getD 0 = 0xffffffff := by decide
  ⟨hodd, hinverse⟩

theorem verifiesAlone_sample_iff (signature : Number) (before rest : Bytes) (exponent : Exponent) :
    VerifiesAlone ⟨fun _ => 0⟩ (before ++ (sampleSpec.signedBytes sampleCrypto signature ++ rest))
        before.length (sampleSpec.signedHeader sampleCrypto signature) exponent ↔
      sampleFolded exponent signature = unlockSentinel := by
  have hsite : Site.of (before ++ (sampleSpec.signedBytes sampleCrypto signature ++ rest))
      before.length = ⟨before.length, sampleSpec.signedBytes sampleCrypto signature ++ rest⟩ := by
    rw [Site.of, List.drop_left]
  have hverified (entry : KeyEntry)
      (hkey : entry.key = (sampleSpec.withExponent exponent).publicKey) :
      ((Verifier.strict ⟨[entry]⟩).verifySite (Session.start ⟨fun _ => 0⟩) ⟨before.length,
        sampleSpec.signedBytes sampleCrypto signature ++ rest⟩).report.isVerified = true ↔
        sampleFolded exponent signature = unlockSentinel := by
    have hkeyId : entry.keyId = sampleSpec.key.keyId := congrArg PublicKey.keyId hkey
    have hentry := KeyTable.get?_singleton entry
    rw [hkeyId] at hentry
    exact isVerified_sample_iff hentry hkey signature before.length rest rfl rfl
  unfold VerifiesAlone Verifier.verifyCandidate
  rw [hsite]
  constructor
  · rintro ⟨entry, hentry, halone⟩
    have hown := (Header.hasUsableKey_of_entry hentry).2
    exact (hverified entry (by rw [hown]; rfl)).mp halone
  · intro hfolded
    let entry : KeyEntry := ⟨"3072", .haven, .loader, (sampleSpec.withExponent exponent).publicKey⟩
    exact ⟨entry, (hasUsableKey_sample signature).entry _ _ _ _, (hverified entry rfl).mpr hfolded⟩

theorem length_sampleBytes (signature : Number) :
    (sampleSpec.signedBytes sampleCrypto signature).length = alignment :=
  ImageSpec.length_signedBytes length_payload_sampleSpec signature

section Pair

variable {a b : Number}

theorem length_samplePair (a b : Number) : (samplePair a b).length = 2 * alignment := by
  rw [samplePair, List.length_append, length_sampleBytes, length_sampleBytes, Nat.two_mul]

theorem isHeaderAt_samplePair (a b : Number) :
    IsHeaderAt (samplePair a b) 0 (sampleSpec.signedHeader sampleCrypto a) ∧
      IsHeaderAt (samplePair a b) alignment (sampleSpec.signedHeader sampleCrypto b) := by
  have hfirst := isHeaderAt_generated sampleSpec_fits sampleCrypto a []
    (Nat.dvd_zero _) (sampleSpec.signedBytes sampleCrypto b)
  have hsecond := isHeaderAt_generated sampleSpec_fits sampleCrypto b
    (sampleSpec.signedBytes sampleCrypto a) (by rw [length_sampleBytes]) []
  rw [List.nil_append] at hfirst
  rw [List.append_nil, length_sampleBytes] at hsecond
  exact ⟨hfirst, hsecond⟩

theorem header_of_samplePair {offset : Nat} {h : Header}
    (hheader : IsHeaderAt (samplePair a b) offset h) :
    (offset = 0 ∧ h = sampleSpec.signedHeader sampleCrypto a) ∨
      (offset = alignment ∧ h = sampleSpec.signedHeader sampleCrypto b) := by
  obtain ⟨hfirst, hsecond⟩ := isHeaderAt_samplePair a b
  have hlt := hheader.lt
  rw [length_samplePair] at hlt
  obtain ⟨k, rfl⟩ := hheader.aligned
  obtain rfl | rfl : k = 0 ∨ k = 1 := by
    unfold alignment at hlt
    omega
  · exact Or.inl ⟨rfl, hfirst.unique hheader⟩
  · exact Or.inr ⟨rfl, hsecond.unique hheader⟩

theorem sharesKeys_samplePair (a b : Number) : SharesKeys (samplePair a b) := by
  intro offset h offset' h' hheader hheader' _
  rcases header_of_samplePair hheader with ⟨-, rfl⟩ | ⟨-, rfl⟩ <;>
    rcases header_of_samplePair hheader' with ⟨-, rfl⟩ | ⟨-, rfl⟩ <;> rfl

theorem verifiesAlone_samplePair (a b : Number) (exponent : Exponent) :
    (VerifiesAlone ⟨fun _ => 0⟩ (samplePair a b) 0 (sampleSpec.signedHeader sampleCrypto a)
        exponent ↔ sampleFolded exponent a = unlockSentinel) ∧
      (VerifiesAlone ⟨fun _ => 0⟩ (samplePair a b) alignment
        (sampleSpec.signedHeader sampleCrypto b) exponent ↔
          sampleFolded exponent b = unlockSentinel) := by
  have hsecond := verifiesAlone_sample_iff b (sampleSpec.signedBytes sampleCrypto a) [] exponent
  have hfirst := verifiesAlone_sample_iff a [] (sampleSpec.signedBytes sampleCrypto b) exponent
  rw [List.nil_append] at hfirst
  rw [List.append_nil, length_sampleBytes] at hsecond
  exact ⟨hfirst, hsecond⟩

-- If neither signature is right for an exponent, neither image is verified alone with it.
theorem not_verifiesAlone_samplePair {exponent : Exponent}
    (ha : sampleFolded exponent a ≠ unlockSentinel) (hb : sampleFolded exponent b ≠ unlockSentinel)
    {offset : Nat} {h : Header} (hheader : IsHeaderAt (samplePair a b) offset h) :
    ¬VerifiesAlone ⟨fun _ => 0⟩ (samplePair a b) offset h exponent := by
  obtain ⟨hfirst, hsecond⟩ := verifiesAlone_samplePair a b exponent
  rcases header_of_samplePair hheader with ⟨rfl, rfl⟩ | ⟨rfl, rfl⟩
  · exact fun halone => ha (hfirst.mp halone)
  · exact fun halone => hb (hsecond.mp halone)

-- Nor is one verified in a scan with that key.
theorem isVerified_scan_samplePair {keys : KeyTable} {entry : KeyEntry} {exponent : Exponent}
    (hentry : keys.get? sampleSpec.key.keyId = some entry)
    (hkey : entry.key = (sampleSpec.withExponent exponent).publicKey)
    (ha : sampleFolded exponent a ≠ unlockSentinel)
    (hb : sampleFolded exponent b ≠ unlockSentinel) :
    ∀ r ∈ ((Verifier.strict keys).scan (Session.start ⟨fun _ => 0⟩) (samplePair a b) 0).reports,
      ¬r.isVerified = true := by
  let first : Step := ⟨⟨Verifier.strict keys, ⟨0, sampleSpec.signedBytes sampleCrypto a ++
    sampleSpec.signedBytes sampleCrypto b⟩⟩, Session.start ⟨fun _ => 0⟩⟩
  let second : Step := ⟨⟨Verifier.strict keys,
    ⟨alignment, sampleSpec.signedBytes sampleCrypto b⟩⟩, first.next⟩
  have hfirst : ¬first.report.isVerified = true := fun hverified =>
    ha ((isVerified_sample_iff hentry hkey a 0 _ rfl rfl).mp hverified)
  -- the first image leaves nothing behind that the second could be accepted for
  have hcold : first.next.warmBoot = none :=
    Step.next_warmBoot_of_not_acceptsSignature fun haccepts => hfirst haccepts.isVerified
  have hsecond : ¬second.report.isVerified = true := by
    have h := isVerified_sample_iff hentry hkey b alignment [] Step.next_ladder hcold
    rw [List.append_nil] at h
    exact fun hverified => hb (h.mp hverified)
  rw [Verifier.reports_scan, samplePair, sites_pair (length_sampleBytes a) (length_sampleBytes b)]
  show ∀ r ∈ [first.report, second.report], ¬r.isVerified = true
  simp [hfirst, hsecond]

end Pair

/-- A good image before an unsigned one with the same key is verified with the dumped keys. -/
theorem dumped_key_of_good_first_image :
    ∃ table, (⟨{}, (dumpImage ⟨fun _ => 0⟩ (samplePair fermatSignature (.zero 96))).1.keys⟩ :
        Settings).keyTable (fun _ => .error "") = .ok table ∧
      ∃ r ∈ ((Verifier.strict table).scan (Session.start ⟨fun _ => 0⟩)
          (samplePair fermatSignature (.zero 96)) 0).reports,
        r.offset = 0 ∧ r.isVerified = true := by
  obtain ⟨hheader, -⟩ := isHeaderAt_samplePair fermatSignature (.zero 96)
  have halone := (verifiesAlone_samplePair fermatSignature (.zero 96) .fermatFour).1.mpr
    sampleFolded_fermatFour
  refine dumped_keys_verify (samplePair fermatSignature (.zero 96))
    (by rw [length_samplePair]; decide) (sharesKeys_samplePair _ _) ⟨fun _ => 0⟩ ⟨fun _ => 0⟩ 0 _
    .fermatFour hheader halone ?_ ?_ (Session.start ⟨fun _ => 0⟩) rfl _
  · intro offset' h' hheader' _
    exact not_verifiesAlone_samplePair sampleFolded_three (sampleFolded_zero_ne .three) hheader'
  · intro _
    exact ⟨0, _, hheader, rfl, fun before other hlt => absurd hlt (Nat.not_lt_zero _), halone⟩

/-- A good image after an unsigned one with the same key is refused, although it is verified alone
with the exponent 65537 and no image with its key is with the exponent 3. -/
theorem dumped_key_of_unsigned_first_image :
    ¬∀ (buf : Bytes) (source : RandomSource) (offset : Nat) (h : Header) (exponent : Exponent)
        (reader : KeyFileReader),
      buf.length ≤ maxLength → SharesKeys buf → IsHeaderAt buf offset h →
      VerifiesAlone source buf offset h exponent →
      (∀ offset' h', IsHeaderAt buf offset' h' → h'.keyId = h.keyId →
        ¬VerifiesAlone source buf offset' h' exponent.other) →
      ∃ table, (⟨{}, (dumpImage source buf).1.keys⟩ : Settings).keyTable reader = .ok table ∧
        ∃ r ∈ ((Verifier.strict table).scan (Session.start source) buf 0).reports,
          r.offset = offset ∧ r.isVerified = true := by
  intro hclaim
  let buf := samplePair (.zero 96) fermatSignature
  let reader : KeyFileReader := fun _ => .error ""
  have hlength : buf.length ≤ maxLength := by
    rw [length_samplePair]
    decide
  obtain ⟨hfirst, hsecond⟩ := isHeaderAt_samplePair (.zero 96) fermatSignature
  obtain ⟨hfirstAlone, hsecondAlone⟩ :=
    verifiesAlone_samplePair (.zero 96) fermatSignature .fermatFour
  obtain ⟨table, htable, r, hr, -, hverified⟩ := hclaim buf ⟨fun _ => 0⟩ alignment _ .fermatFour
    reader hlength (sharesKeys_samplePair _ _) hsecond
    (hsecondAlone.mpr sampleFolded_fermatFour)
    fun offset' h' hheader' _ =>
      not_verifiesAlone_samplePair (sampleFolded_zero_ne .three) sampleFolded_three hheader'
  -- the key of the dump is that of the unsigned image, with which no signature goes
  have hfirstWithKey : IsFirstWithKey buf 0 (sampleSpec.signedHeader sampleCrypto (.zero 96)) :=
    ⟨hfirst, hasUsableKey_sample _, fun before _ hlt => absurd hlt (Nat.not_lt_zero _)⟩
  obtain ⟨table', htable', hsettings⟩ :=
    exists_keyTable_dumpImage ⟨fun _ => 0⟩ hlength reader
  obtain rfl := Except.ok.inj (htable.symm.trans htable')
  obtain ⟨family, role, entry, hentry, hkey⟩ := get?_of_dumpImage hlength hsettings hfirstWithKey
  rw [checkedExponent_eq_three hfirst.parses hfirstWithKey.usable family role
    fun halone => sampleFolded_zero_ne .fermatFour (hfirstAlone.mp halone)] at hkey
  exact isVerified_scan_samplePair hentry hkey (sampleFolded_zero_ne .three) sampleFolded_three r hr
    hverified

end SignedFlash
