import SignedFlash.Command.Verify
import SignedFlash.Proofs.Admission
import SignedFlash.Proofs.Boundaries
import SignedFlash.Proofs.KeyFiles
import SignedFlash.Proofs.Reloading
import SignedFlash.Proofs.Soundness

/-!
# The result of the command `verify`

The command succeeds if some boundary of the flash image holds an image that is valid by itself.
What lies at the other boundaries can neither spoil a valid image nor, as long as no digests
coincide, make a command succeed without one. The options and the keys are those of a configuration,
whose keys may stand in files, or else no options and the keys that are built in.
-/

namespace SignedFlash

namespace Verifier

variable (v : Verifier)

/-- Whether there is an image with the given header and digests at an offset of a buffer, and it is
valid by itself. -/
structure IsValidImage (buf : Bytes) (offset : Nat) (h : Header) (hashes : HashChain) : Prop where
  header : Candidate.parse buf offset = .ok (.header h)
  whole : offset + h.imageSize.toNat ≤ buf.length
  digests : HashChain.compute v.info h ((buf.drop offset).take h.imageSize.toNat) = .ok hashes
  checksums : v.options.skipHashChecking = true ∨ hashes.checksums h = ⟨true, true, true⟩
  known : v.options.strictKeys = false ∨ (v.keys.get? h.keyId).isSome = true
  signature : ∃ digest, (v.options.skipHashChecking = true ∨ digest = hashes.final) ∧
    (v.keys.resolve h).key.power h.signature =
      encodeDigest digest (v.keys.resolve h).key.isLegacy

-- A valid image is one that is admitted and covered by its signature.
theorem exists_isValidImage_iff (buf : Bytes) (offset : Nat) :
    (∃ h hashes, v.IsValidImage buf offset h hashes) ↔
      ∃ image, v.admitted? (Site.of buf offset) = some image ∧
        image.IsCovered v.options.skipHashChecking := by
  constructor
  · rintro ⟨h, hashes, hvalid⟩
    have hadmitted : v.IsAdmitted buf offset h hashes :=
      ⟨⟨hvalid.header, hvalid.whole, hvalid.digests⟩, hvalid.checksums, hvalid.known⟩
    obtain ⟨family, himage⟩ := hadmitted.exists_admitted?
    exact ⟨_, himage, hvalid.signature⟩
  · rintro ⟨image, himage, hcovered⟩
    obtain ⟨hadmitted, -, hresolved⟩ := admitted?_of_eq_some_iff.mp himage
    rw [SignedImage.IsCovered, hresolved] at hcovered
    exact ⟨image.header, image.hashes, hadmitted.header, hadmitted.whole, hadmitted.digests,
      hadmitted.checksums, hadmitted.known, hcovered⟩

end Verifier

/-! ## The result -/

theorem Report.isCandidate_of_isVerified {r : Report} (h : r.isVerified = true) :
    r.isCandidate = true := by
  rw [isVerified, beq_iff_eq] at h
  rw [isCandidate, h]

theorem result_verifyImage (source : RandomSource) (path : String) (options : Options)
    (keys : KeyTable) (image : Bytes) :
    (verifyImage source path options keys image).result = .ok true ↔
      ∃ step ∈ (Session.start source).history [.scan ⟨options, keys, InfoBank.erased⟩ image 0],
        step.report.isVerified = true := by
  have hreports : (Verifier.scan ⟨options, keys, InfoBank.erased⟩ (Session.start source) image
      0).reports = ((Session.start source).history
        [.scan ⟨options, keys, InfoBank.erased⟩ image 0]).map Step.report := by
    rw [Session.history_singleton]
    exact (Session.verifyAll_eq _ _ _).1
  -- the command succeeds if the list of accepted images is not empty
  change Except.ok (decide (0 < List.length _)) = Except.ok true ↔ _
  rw [Except.ok.injEq, decide_eq_true_iff, List.length_pos_iff_exists_mem, hreports]
  constructor
  · rintro ⟨report, hmem⟩
    obtain ⟨hfound, hverified⟩ := List.mem_filter.mp hmem
    obtain ⟨step, hstep, rfl⟩ := List.mem_map.mp (List.mem_filter.mp hfound).1
    exact ⟨step, hstep, hverified⟩
  · rintro ⟨step, hstep, hverified⟩
    exact ⟨step.report, List.mem_filter.mpr ⟨List.mem_filter.mpr ⟨List.mem_map_of_mem hstep,
      Report.isCandidate_of_isVerified hverified⟩, hverified⟩⟩

theorem mem_tasks_scan_iff {v : Verifier} {buf : Bytes} (hlength : buf.length ≤ maxLength)
    {task : Task} :
    task ∈ (Call.scan v buf 0).tasks ↔
      ∃ offset, alignment ∣ offset ∧ offset < buf.length ∧ task = ⟨v, Site.of buf offset⟩ := by
  rw [Call.tasks, List.mem_map]
  constructor
  · rintro ⟨site, hsite, rfl⟩
    obtain ⟨offset, hdvd, -, hlt, rfl⟩ := (mem_sites_iff hlength).mp hsite
    exact ⟨offset, hdvd, hlt, rfl⟩
  · rintro ⟨offset, hdvd, hlt, rfl⟩
    exact ⟨_, (mem_sites_iff hlength).mpr ⟨offset, hdvd, Nat.zero_le _, hlt, rfl⟩, rfl⟩

theorem exists_covered_step_iff (session : Session) {v : Verifier} {buf : Bytes}
    (hlength : buf.length ≤ maxLength) :
    (∃ step ∈ session.history [.scan v buf 0], step.Covered) ↔
      ∃ offset, alignment ∣ offset ∧ offset < buf.length ∧
        ∃ h hashes, v.IsValidImage buf offset h hashes := by
  rw [Session.history_singleton]
  constructor
  · rintro ⟨step, hstep, hcovered⟩
    have hmem : step.task ∈ (Call.scan v buf 0).tasks := by
      rw [← session.map_task_steps (Call.scan v buf 0).tasks]
      exact List.mem_map_of_mem hstep
    obtain ⟨offset, hdvd, hlt, htask⟩ := (mem_tasks_scan_iff hlength).mp hmem
    refine ⟨offset, hdvd, hlt, (v.exists_isValidImage_iff buf offset).mpr ?_⟩
    rwa [Step.Covered, Step.image?, Step.skipHash, htask] at hcovered
  · rintro ⟨offset, hdvd, hlt, hvalid⟩
    have hmem := (mem_tasks_scan_iff (v := v) hlength).mpr ⟨offset, hdvd, hlt, rfl⟩
    rw [← session.map_task_steps (Call.scan v buf 0).tasks] at hmem
    obtain ⟨step, hstep, htask⟩ := List.mem_map.mp hmem
    refine ⟨step, hstep, ?_⟩
    rw [Step.Covered, Step.image?, Step.skipHash, htask]
    exact (v.exists_isValidImage_iff buf offset).mp hvalid

/-! ## Loading -/

section

variable {build : Build} {request : VerifyRequest} {files : Files} {image : Bytes}
  {options : Options} {keys : KeyTable}

-- Without a configuration there is always a key table.
theorem exists_loadVerifier_none (build : Build) (files : Files) :
    ∃ keys, loadVerifier build files none = .ok ({}, keys) := by
  obtain ⟨decodePem, developmentKeys⟩ := build
  cases developmentKeys with
  | false => exact ⟨_, rfl⟩
  | true => exact ⟨_, rfl⟩

theorem loadVerifier_some_eq_ok_iff {path : String} :
    loadVerifier build files (some path) = .ok (options, keys) ↔
      ∃ settings, loadSettings files path = .ok settings ∧ settings.verify = options ∧
        settings.keyTable (keyFiles build.decodePem files path) = .ok keys := by
  unfold loadVerifier
  cases hsettings : loadSettings files path with
  | error error => simp [hsettings, bind, Except.bind]
  | ok settings =>
    cases hkeys : settings.keyTable (keyFiles build.decodePem files path) with
    | error error => simp [hsettings, hkeys, bind, Except.bind]
    | ok keys => simp [hsettings, hkeys, bind, Except.bind]

theorem VerifyRequest.result_run_of_error (source : RandomSource)
    (himage : files request.image = .ok image) {error : CommandError}
    (hload : loadVerifier build files request.config = .error error) :
    (request.run build files source).result = .error error := by
  rw [run, withImage, himage, hload]
  rfl

theorem VerifyRequest.run_of_ok (source : RandomSource) (himage : files request.image = .ok image)
    (hload : loadVerifier build files request.config = .ok (options, keys)) :
    request.run build files source =
      verifyImage source request.image (options.or request.options) keys image := by
  rw [run, withImage, himage, hload]

end

/-! ## A configuration with a key file -/

/-- The development key of the sample image in PEM. -/
def samplePem : String := printedLines [
  "-----BEGIN PUBLIC KEY-----",
  "MIIBoDANBgkqhkiG9w0BAQEFAAOCAY0AMIIBiAKCAYEAsnnn5rYbsMydS08vVjB+",
  "uXh3T/k5ZMAZGMObTPrpcoT1g88hfp3qIUtJpdHpaMltVlldeOQeWaQjb4vHLNN9",
  "fOshp2MXEyAdchE+TE31xCvfUNP2JojyeMuEFA5wRv08AFYzXB8lbwdUMiF7RbA+",
  "v0iLg5QRZadUIXZxgDzgSNnqWHgvO+bUOBa2oDy/jm2mg09WtbnG5fYcGQbVCoP3",
  "X/dnBn89tjAioBhZ1zY80tCDaeVAWHeT4Ey0UOIqXnazleS45JS54P2gQT+1jn6W",
  "xny95sOEZaQ3T77VIAr4AMJhsd8tK/7k8tzkVJ5vXVpV85xMkcuYlDntN9JyQiRx",
  "2OyTXAO4b5r863oPD3a1dXudT+oR8g7bHVzuGYt8AXuD9jjmU9fuA0uRIt6tEJOF",
  "TI01aDREWVefPkdf9QHjFEiGaNDVI8ZR0LxhiKXz2tOVbakvTpN0BnmC7M/fIBje",
  "yMPOAG/aDbNlkGo22UAjIwahqHdkzvFZmyY6XiBy+kuLAgED",
  "-----END PUBLIC KEY-----"]

def sampleKeySetting : KeySetting := ⟨"dev", .haven, .rom, none, none, none, some "dev.pem"⟩

/-- The sample image, a configuration that names one key file, and the key file. -/
def configuredFiles : Files := fun path =>
  if path = "flash.bin" then .ok sampleImage.bytes
  else if path = "gsc.toml" then .ok (textBytes (Dump.text ⟨[sampleKeySetting], []⟩))
  else if path = "dev.pem" then .ok (textBytes samplePem)
  else .error .notFound

/-- What a decoder tells of one file. -/
def decoderOf (file : Bytes) (raw : RawPublicKey) : PemDecoder := fun pem =>
  if pem = file then .ok raw else .error "no public key"

theorem decoderOf_self (file : Bytes) (raw : RawPublicKey) : decoderOf file raw file = .ok raw :=
  if_pos rfl

def sampleRawKey : RawPublicKey := ⟨DevelopmentKey.long3Modulus.toNat, 3⟩

/-- A build that decodes the sample key file and has no keys of its own. -/
def sampleBuild : Build := ⟨decoderOf (textBytes samplePem) sampleRawKey, false⟩

theorem toEntry_sampleKeySetting :
    sampleKeySetting.toEntry (keyFiles sampleBuild.decodePem configuredFiles "gsc.toml") =
      .ok ⟨"dev", .haven, .rom, sampleSpec.publicKey⟩ := by
  have hgiven : sampleKeySetting.IsGivenByFile "dev.pem" := ⟨rfl, rfl, rfl, rfl⟩
  have hpath : Text.beside "gsc.toml" "dev.pem" = "dev.pem" := by decide
  have hfile : configuredFiles "dev.pem" = .ok (textBytes samplePem) := rfl
  have hdecoded : sampleBuild.decodePem (textBytes samplePem) = .ok sampleRawKey := by
    simp only [sampleBuild, decoderOf_self]
  have hodd : Odd DevelopmentKey.long3Modulus.toNat := Words.odd_toNat (by decide)
  have hkeyId : sampleSpec.publicKey.keyId =
      montgomeryInverse (sampleSpec.publicKey.modulus.getD 0) := by decide +kernel
  rw [hgiven.toEntry_keyFiles_eq_ok_iff, hpath]
  exact ⟨⟨rfl, rfl, rfl⟩, _, _, hfile, hdecoded, hodd, rfl, rfl, hkeyId⟩

/-- With the key out of the file, and with no options. -/
theorem loadVerifier_configuredFiles :
    loadVerifier sampleBuild configuredFiles (some "gsc.toml") =
      .ok ({}, ⟨[⟨"dev", .haven, .rom, sampleSpec.publicKey⟩]⟩) := by
  have hfile : configuredFiles "gsc.toml" =
      .ok (textBytes (Dump.text ⟨[sampleKeySetting], []⟩)) := rfl
  have hread : Settings.parse? (Dump.text ⟨[sampleKeySetting], []⟩) =
      some ⟨{}, [sampleKeySetting]⟩ := parse?_text (by simp)
  have hsettings : loadSettings configuredFiles "gsc.toml" = .ok ⟨{}, [sampleKeySetting]⟩ := by
    rw [loadSettings, text_of_textBytes hfile]
    simp only [hread]
  refine loadVerifier_some_eq_ok_iff.mpr ⟨_, hsettings, rfl, ?_⟩
  rw [Settings.keyTable, foldlM_cons_eq_ok_iff]
  exact ⟨_, KeyTable.addSetting_eq_ok_iff.mpr ⟨_, toEntry_sampleKeySetting, rfl⟩, rfl⟩

theorem warmRegister_sampleDigest :
    (Session.start ⟨fun _ => 0⟩).warmRegister sampleDigest ≠ unlockSentinel := by
  decide +kernel

-- The sample image fills the flash, so that a scan has but one step, in which nothing unlocks that
-- should not.
theorem onlyCanonicalUnlocks_sampleImage {v : Verifier} {image : SignedImage}
    (hadmitted : v.admitted? ⟨0, sampleImage.bytes⟩ = some image)
    (hcovered : image.IsCovered v.options.skipHashChecking)
    (hfinal : image.hashes.final = sampleDigest) :
    OnlyCanonicalUnlocks
      ((Session.start ⟨fun _ => 0⟩).history [.scan v sampleImage.bytes 0]) := by
  have hlength : sampleImage.bytes.length ≤ maxLength := by
    rw [length_sampleImage]
    decide
  rw [Session.history_singleton]
  apply onlyCanonicalUnlocks_of_isCovered
  intro step hstep image' himage'
  have hmem := List.mem_map_of_mem (f := Step.task) hstep
  rw [Session.map_task_steps, mem_tasks_scan_iff hlength, length_sampleImage] at hmem
  obtain ⟨offset, ⟨k, rfl⟩, hlt, htask⟩ := hmem
  obtain rfl : k = 0 := by
    unfold alignment at hlt
    omega
  rw [Step.image?, htask] at himage'
  obtain rfl := Option.some.inj (hadmitted.symm.trans himage')
  rw [Step.skipHash, htask, Session.warmRegister, Session.ladder_of_mem_steps hstep, hfinal]
  exact ⟨hcovered, warmRegister_sampleDigest⟩

/-! ## The result of the whole command -/

/-- A command whose configuration does not load fails with the same error; without a configuration,
there are always keys. With the options and keys that it loads, the command succeeds if there is a
valid image at a boundary and, as long as no digests coincide, only if there is one. -/
theorem verify_succeeds_iff (build : Build) (request : VerifyRequest) (files : Files)
    (source : RandomSource) {image : Bytes} (himage : files request.image = .ok image)
    (hlength : image.length ≤ maxLength) :
    let result := (request.run build files source).result
    (∃ keys, loadVerifier build files none = .ok ({}, keys)) ∧
    (∀ error, loadVerifier build files request.config = .error error → result = .error error) ∧
    ∀ options keys, loadVerifier build files request.config = .ok (options, keys) →
      let v : Verifier := ⟨options.or request.options, keys, InfoBank.erased⟩
      let hasValidImage := ∃ offset, alignment ∣ offset ∧ offset < image.length ∧
        ∃ h hashes, v.IsValidImage image offset h hashes
      (hasValidImage → result = .ok true) ∧
        (OnlyCanonicalUnlocks ((Session.start source).history [.scan v image 0]) →
          result = .ok true → hasValidImage) := by
  intro result
  refine ⟨exists_loadVerifier_none build files,
    fun error hload => VerifyRequest.result_run_of_error source himage hload, ?_⟩
  intro options keys hload v hasValidImage
  have hvalid : _ ↔ hasValidImage := exists_covered_step_iff (Session.start source) hlength
  have hresult := result_verifyImage source request.image v.options keys image
  rw [← VerifyRequest.run_of_ok source himage hload] at hresult
  rw [← hvalid, hresult]
  constructor
  · rintro ⟨step, hstep, hcovered⟩
    exact ⟨step, hstep, isVerified_of_covered hcovered⟩
  · rintro hcanonical ⟨step, hstep, hverified⟩
    exact exists_covered_of_verified rfl hcanonical hstep hverified

/-- The sample image is found valid with the key out of the file, where keys must be known. -/
theorem sample_verify_succeeds :
    let request : VerifyRequest := ⟨"flash.bin", some "gsc.toml", { strictKeys := true }, none⟩
    let source : RandomSource := ⟨fun _ => 0⟩
    let keys : KeyTable := ⟨[⟨"dev", .haven, .rom, sampleSpec.publicKey⟩]⟩
    let v : Verifier := ⟨({} : Options).or request.options, keys, InfoBank.erased⟩
    configuredFiles request.image = .ok sampleImage.bytes ∧ sampleImage.bytes.length ≤ maxLength ∧
      loadVerifier sampleBuild configuredFiles request.config = .ok ({}, keys) ∧
      OnlyCanonicalUnlocks ((Session.start source).history [.scan v sampleImage.bytes 0]) ∧
      (request.run sampleBuild configuredFiles source).result = .ok true := by
  intro request source keys v
  have hlength : sampleImage.bytes.length ≤ maxLength := by
    rw [length_sampleImage]
    decide
  obtain ⟨image, hadmitted, -, hfinal, -, hsigned⟩ :=
    exists_admitted?_sampleImage (v := v) rfl (Or.inl ⟨_, rfl, rfl⟩) 0 []
  rw [List.append_nil] at hadmitted
  have hcovered : image.IsCovered v.options.skipHashChecking :=
    image.isCovered_false_iff.mpr hsigned
  have hvalid : ∃ h hashes, v.IsValidImage sampleImage.bytes 0 h hashes :=
    (v.exists_isValidImage_iff sampleImage.bytes 0).mpr ⟨image, hadmitted, hcovered⟩
  have hpositive : 0 < sampleImage.bytes.length := by
    rw [length_sampleImage]
    decide
  obtain ⟨-, -, hloaded⟩ :=
    verify_succeeds_iff sampleBuild request configuredFiles source rfl hlength
  obtain ⟨hsucceeds, -⟩ := hloaded {} keys loadVerifier_configuredFiles
  exact ⟨rfl, hlength, loadVerifier_configuredFiles,
    onlyCanonicalUnlocks_sampleImage hadmitted hcovered hfinal,
    hsucceeds ⟨0, Nat.dvd_zero _, hpositive, hvalid⟩⟩

end SignedFlash
