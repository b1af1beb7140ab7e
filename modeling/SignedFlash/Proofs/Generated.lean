import SignedFlash.Generator
import SignedFlash.Proofs.Layout
import SignedFlash.Proofs.Powers
import SignedFlash.Proofs.Verdict

/-!
# Generated images are accepted

Generating and verifying are two ways through the same digests. An image generated with a private
key is found and accepted wherever its bytes stand in flash and whatever happened in the session,
provided the signature is right and the verifier knows the key or may take it from the header.
-/

namespace SignedFlash

namespace ImageSpec

variable (spec : ImageSpec) (crypto : Crypto)

/-- The public half of the key. -/
def publicKey : PublicKey := ⟨spec.key.keyId, spec.key.modulus, spec.key.exponent⟩

/-- The header of the generated image with the given signature. -/
def signedHeader (signature : Number) : Header :=
  { (spec.checkedHeader crypto).1 with signature := signature }

/-- The bytes of that image. -/
def signedBytes (signature : Number) : Bytes :=
  (spec.signedHeader crypto signature).encode ++ spec.payload

/-- Whether a header can describe the size of the image. -/
structure Fits : Prop where
  small : minImageSize.toNat ≤ spec.imageSize
  large : spec.imageSize < 2 ^ 32
  bits : UInt32.ofNat spec.imageSize &&& cryptolibBits = 0

theorem generate_eq_ok_iff {privateExponent : Number} {image : GeneratedImage}
    (hkey : spec.key.privateExponent = some privateExponent) :
    spec.generate crypto = .ok image ↔
      spec.Fits ∧ ∃ signature,
        crypto.sign (encodeDigest (spec.checkedHeader crypto).2 spec.key.isLegacy)
          spec.key.modulus privateExponent = .ok signature ∧
        image = ⟨spec.signedHeader crypto signature, spec.payload,
          (spec.checkedHeader crypto).2⟩ := by
  unfold generate
  simp only [hkey]
  -- the three rules on the size, and then the signature
  split
  · rename_i hsmall
    exact ⟨nofun, fun h => absurd h.1.small (Nat.not_le_of_lt hsmall)⟩
  rename_i hsmall
  split
  · rename_i hlarge
    exact ⟨nofun, fun h => absurd h.1.large (Nat.not_lt_of_le hlarge)⟩
  rename_i hlarge
  split
  · rename_i hbits
    exact ⟨nofun, fun h => absurd h.1.bits hbits⟩
  rename_i hbits
  have hfits : spec.Fits :=
    ⟨Nat.le_of_not_lt hsmall, Nat.lt_of_not_le hlarge, not_not.mp hbits⟩
  cases hsign : crypto.sign (encodeDigest (spec.checkedHeader crypto).2 spec.key.isLegacy)
    spec.key.modulus privateExponent with
  | error reason => exact ⟨nofun, fun ⟨_, _, h, _⟩ => nomatch h⟩
  | ok signature =>
    constructor
    · intro h
      exact ⟨hfits, signature, rfl, (Except.ok.inj h).symm⟩
    · rintro ⟨-, signature, h, rfl⟩
      obtain rfl := Except.ok.inj h
      rfl

theorem check_signedHeader (signature : Number) (hfits : spec.Fits) :
    (spec.signedHeader crypto signature).check = .ok () := by
  rw [Header.check_eq_ok_iff]
  -- the executable region of every generated image starts right after the header
  refine ⟨?_, ?_, hfits.bits, rfl⟩
  · change (Family.ofMagic? spec.family.magic).isSome = true
    rw [Family.ofMagic?_magic]
    rfl
  · change minImageSize ≤ UInt32.ofNat spec.imageSize
    rw [UInt32.le_iff_toNat_le, UInt32.toNat_ofNat_of_lt' hfits.large]
    exact hfits.small

-- The digests that the generator computes are those that the verifier computes.
theorem compute_signedHeader (signature : Number) (hsha : crypto.sha256 = Sha256.digest)
    (hlarge : spec.imageSize < 2 ^ 32) :
    ∃ hashes,
      HashChain.compute spec.info (spec.signedHeader crypto signature)
        ((spec.signedHeader crypto signature).encode ++ spec.payload) = .ok hashes ∧
      hashes.final = (spec.checkedHeader crypto).2 ∧
      hashes.checksums (spec.signedHeader crypto signature) = ⟨true, true, true⟩ := by
  obtain ⟨sha256, sign⟩ := crypto
  obtain rfl : sha256 = Sha256.digest := hsha
  let fuses := Sha256.digest (FuseBank.sense (FuseBank.ofHeader spec.header) spec.header).bytes
  let info := Sha256.digest (InfoBank.sense spec.info spec.header).bytes
  let hashed := { spec.header with fusesCheck := fuses.getD 0, infoCheck := info.getD 0 }
  let image := Sha256.digest (hashed.encode.drop Header.hashedFrom ++ spec.payload)
  let h := { hashed with imageCheck := image.getD 0, signature := signature }
  change ∃ hashes, HashChain.compute spec.info h (h.encode ++ spec.payload) = .ok hashes ∧
    hashes.final = Sha256.digest (image.bytes ++ fuses.bytes ++ info.bytes) ∧
    hashes.checksums h = ⟨true, true, true⟩
  have hsize : h.imageSize.toNat = structureSize + spec.payload.length :=
    UInt32.toNat_ofNat_of_lt' hlarge
  have hlength : (h.encode ++ spec.payload).length = h.imageSize.toNat := by
    rw [List.length_append, h.length_encode, hsize]
  have hbounds : Header.hashedFrom ≤ h.imageSize.toNat ∧
      h.imageSize.toNat ≤ (h.encode ++ spec.payload).length := by
    rw [hlength, hsize]
    exact ⟨by unfold Header.hashedFrom structureSize; omega, Nat.le_refl _⟩
  -- the image's checksum and the signature are filled in last, and lie before the hashed part
  have hpart : ((h.encode ++ spec.payload).take h.imageSize.toNat).drop Header.hashedFrom =
      hashed.encode.drop Header.hashedFrom ++ spec.payload := by
    have hdrop : h.encode.drop Header.hashedFrom = hashed.encode.drop Header.hashedFrom := by
      apply Header.drop_encode_congr
      intro f hf
      cases f <;> first | rfl | exact absurd hf (by decide)
    rw [List.take_of_length_le hlength.le, List.drop_append_of_le_length, hdrop]
    rw [h.length_encode]
    decide
  refine ⟨HashChain.ofDigests image fuses info, ?_, rfl, ?_⟩
  · unfold HashChain.compute
    rw [if_pos hbounds]
    dsimp only
    rw [hpart]
    rfl
  · unfold HashChain.checksums
    simp only [h, hashed, HashChain.ofDigests, beq_self_eq_true]

theorem family?_signedHeader (signature : Number) :
    (spec.signedHeader crypto signature).family? = some spec.family :=
  Family.ofMagic?_magic spec.family

theorem length_bytes_signedHeader (signature : Number) (hlarge : spec.imageSize < 2 ^ 32) :
    ((spec.signedHeader crypto signature).encode ++ spec.payload).length =
      (spec.signedHeader crypto signature).imageSize.toNat := by
  rw [List.length_append, Header.length_encode]
  exact (UInt32.toNat_ofNat_of_lt' hlarge).symm

variable {spec crypto}

theorem signature_of_header_eq {image : SignedImage} {signature : Number}
    (h : image.header = spec.signedHeader crypto signature) :
    image.header.signature = signature := by
  rw [h]
  rfl

-- The shortest images fill the 2 KB between two boundaries.
theorem fits_of_length_payload (h : spec.payload.length = 1024) : spec.Fits := by
  constructor <;> rw [imageSize, h] <;> decide

theorem length_signedBytes (h : spec.payload.length = 1024) (signature : Number) :
    (spec.signedBytes crypto signature).length = 2048 := by
  rw [signedBytes, List.length_append, Header.length_encode, h]
  rfl

end ImageSpec

/-! ## Verifying a generated image -/

namespace Verifier

variable (v : Verifier)

/-- Whether the verifier checks an image of a key with that key: it is the one known by its key id,
or there is none and the key that the header carries will do. -/
def Takes (key : PublicKey) : Prop :=
  (∃ entry, v.keys.get? key.keyId = some entry ∧ entry.key = key) ∨
    (v.keys.get? key.keyId = none ∧ v.options.strictKeys = false ∧ key.exponent = .three)

theorem resolve_of_takes {key : PublicKey} (htakes : v.Takes key) {h : Header}
    (hkeyId : h.keyId = key.keyId) (hmodulus : h.key = key.modulus) :
    (v.keys.resolve h).key = key ∧
      (v.options.strictKeys && (v.keys.resolve h).source.isUnverified) = false := by
  unfold KeyTable.resolve
  rw [hkeyId]
  rcases htakes with ⟨entry, hentry, hkey⟩ | ⟨hnone, hstrict, hexponent⟩
  · rw [hentry]
    exact ⟨hkey, Bool.and_false _⟩
  · rw [hnone]
    refine ⟨?_, by rw [hstrict, Bool.false_and]⟩
    rw [hmodulus, ← hexponent]

-- At the site of a generated image there is that image, with the digest that was signed.
theorem image?_generated (spec : ImageSpec) (crypto : Crypto) (signature : Number)
    (hsha : crypto.sha256 = Sha256.digest) (hfits : spec.Fits) (hinfo : v.info = spec.info)
    (offset : Nat) (rest : Bytes) :
    let h := spec.signedHeader crypto signature
    ∃ hashes, v.image? ⟨offset, h.encode ++ spec.payload ++ rest⟩ =
        some ⟨h, spec.family, hashes, v.keys.resolve h⟩ ∧
      hashes.final = (spec.checkedHeader crypto).2 ∧ hashes.checksums h = ⟨true, true, true⟩ := by
  intro h
  obtain ⟨hashes, hcompute, hfinal, hchecksums⟩ :=
    spec.compute_signedHeader crypto signature hsha hfits.large
  rw [← hinfo] at hcompute
  have hlength : (h.encode ++ spec.payload).length = h.imageSize.toNat :=
    spec.length_bytes_signedHeader crypto signature hfits.large
  have hfirst : (h.encode ++ spec.payload ++ rest).first? h.imageSize.toNat =
      some (h.encode ++ spec.payload) := by
    rw [Bytes.first?_eq_some_iff, List.length_append, ← hlength, List.take_left]
    exact ⟨Nat.le_add_right _ _, rfl⟩
  refine ⟨hashes, v.image?_eq_some_iff.mpr ⟨?_, ?_, ?_, rfl⟩, hfinal, hchecksums⟩
  · change Candidate.ofFront (h.encode ++ spec.payload ++ rest) = _
    rw [List.append_assoc]
    exact Candidate.ofFront_encode_append (spec.check_signedHeader crypto signature hfits) _
  · exact spec.family?_signedHeader crypto signature
  · exact ⟨_, hfirst, hcompute⟩

-- A verifier that takes its key goes on to the signature of a generated image.
theorem admitted?_generated (spec : ImageSpec) (crypto : Crypto) (signature : Number)
    (hsha : crypto.sha256 = Sha256.digest) (hfits : spec.Fits) (hinfo : v.info = spec.info)
    (htakes : v.Takes spec.publicKey) (offset : Nat) (rest : Bytes) :
    let h := spec.signedHeader crypto signature
    ∃ image, v.admitted? ⟨offset, h.encode ++ spec.payload ++ rest⟩ = some image ∧
      image.header = h ∧ image.family = spec.family ∧ image.resolved.key = spec.publicKey ∧
      image.hashes.final = (spec.checkedHeader crypto).2 ∧
      image.hashes.checksums h = ⟨true, true, true⟩ := by
  intro h
  obtain ⟨hashes, himage, hfinal, hchecksums⟩ :=
    v.image?_generated spec crypto signature hsha hfits hinfo offset rest
  obtain ⟨hresolved, hknown⟩ := v.resolve_of_takes htakes (h := h) rfl rfl
  refine ⟨_, v.admitted?_eq_some_iff.mpr ⟨himage, ?_⟩, rfl, rfl, hresolved, hfinal, hchecksums⟩
  rw [admits, HashChain.check_isOk_iff.mpr hchecksums, hknown, Bool.or_true]
  rfl

end Verifier

/-! ## A sample image -/

/-- A short image of the development key with exponent 3. -/
def sampleSpec : ImageSpec := .new .haven DevelopmentKey.long3 (List.replicate 1024 0)

/-- The signature of the sample image. -/
def sampleSignature : Number := ⟨[
  0x28d1a3cb, 0x9e3ac282, 0xe52a3d56, 0x5c906edb, 0xa5d26e5b, 0xddc3a359, 0x3a42048b, 0x3e2f5abd,
  0x4a68d3ce, 0x2b8f767c, 0x896fa4c4, 0x76a265d4, 0xb58da711, 0x47e670e6, 0x8f00e452, 0x454c4c39,
  0x4f4cbb0f, 0xa85f7537, 0x6393b6dd, 0xed1897a4, 0x5b57721c, 0xf716d9c5, 0x85b6019f, 0x3517b714,
  0x65e08944, 0x3e414356, 0x25954254, 0x6de620ee, 0xa0a37dcf, 0x984f7166, 0x952fb822, 0x09a080bf,
  0xe7c31d1d, 0xc33fae60, 0x02c88e45, 0xc9cdd299, 0x7e80c14c, 0x44dc7b78, 0x1218f6c5, 0xca0a9b71,
  0x40b4b679, 0x4ca021f3, 0x71daf5e1, 0x92b14475, 0x548a445a, 0xca095165, 0xb2095aaa, 0x5805a8fd,
  0x26e6dd76, 0x96b48302, 0xadb952e4, 0xd4ac4139, 0x6da2c47e, 0xf45501f8, 0x572b7fea, 0xc594e9f2,
  0x2dfe5fe9, 0x9c5f74e2, 0x4717aa7b, 0xc5a39b0b, 0xacd0626e, 0xd80cb0ef, 0xc89f5a99, 0x6ad3e230,
  0x25b3e1bb, 0x2cc57424, 0x89911c43, 0x13cdba19, 0xcf4b9ec9, 0x3bd05e0b, 0xdf3cc65c, 0x0d7d158b,
  0xb7e2197d, 0x7e10ae9b, 0xdd883545, 0xc389ebbe, 0xa4b1f07d, 0x89f773c7, 0x5dfde117, 0xd0b07e0f,
  0x347aebb0, 0xc2c26ba5, 0x82e2062d, 0x17dc3ea8, 0xf39a96e4, 0xd2fbec60, 0x6544c4f4, 0xde624f52,
  0xd63fac62, 0xb592cff2, 0xf1ec89f2, 0x8a917fab, 0x932d78f3, 0x59bf74f2, 0x9d7d8a7a, 0x1d680811],
  rfl⟩

/-- The algorithms that sign the sample image. -/
def sampleCrypto : Crypto := ⟨Sha256.digest, fun _ _ _ => .ok sampleSignature⟩

/-- The sample image. -/
def sampleImage : GeneratedImage :=
  ⟨sampleSpec.signedHeader sampleCrypto sampleSignature, sampleSpec.payload,
    (sampleSpec.checkedHeader sampleCrypto).2⟩

/-- The digest that the signature of the sample image covers. -/
def sampleDigest : Digest :=
  ⟨[0xf4a25142, 0xa471eb43, 0x1958076c, 0x1392c460,
    0x70ca6e0e, 0xeb41e153, 0x8943bcf3, 0x5df38a73], rfl⟩

/-- Flash that was erased. -/
def erasedSector : Bytes := List.replicate 2048 0xff

/-- A verifier that knows no keys, and takes those of headers. -/
def sampleVerifier : Verifier := ⟨{}, .empty, InfoBank.erased⟩

/-- A verifier that knows the key of the sample image only. -/
def knownVerifier : Verifier :=
  ⟨{}, ⟨[⟨"3072", .haven, .loader, sampleSpec.publicKey⟩]⟩, InfoBank.erased⟩

/-- A session without randomness. -/
def sampleSession : Session := ⟨⟨fun _ => 0⟩, .zero 8, none⟩

/-- The ladder of a session that starts without randomness. -/
def stillLadder : Digest :=
  ⟨[0x743ce857, 0xd556caca, 0x002e7048, 0xe5914ddd,
    0x8bf35f63, 0x5490e9e6, 0xe5deed02, 0xbff77d36], rfl⟩

theorem length_payload_sampleSpec : sampleSpec.payload.length = 1024 := List.length_replicate

theorem sampleSpec_fits : sampleSpec.Fits :=
  ImageSpec.fits_of_length_payload length_payload_sampleSpec

theorem length_sampleImage : sampleImage.bytes.length = 2048 :=
  ImageSpec.length_signedBytes length_payload_sampleSpec sampleSignature

theorem imageSize_sampleImage : sampleImage.header.imageSize.toNat = 2048 :=
  (sampleSpec.length_bytes_signedHeader _ _ sampleSpec_fits.large).symm.trans length_sampleImage

theorem generate_sampleSpec : sampleSpec.generate sampleCrypto = .ok sampleImage :=
  (sampleSpec.generate_eq_ok_iff sampleCrypto rfl).mpr
    ⟨sampleSpec_fits, sampleSignature, rfl, rfl⟩

theorem sampleVerifier_takes : sampleVerifier.Takes sampleSpec.publicKey :=
  Or.inr ⟨rfl, rfl, rfl⟩

theorem takes_of_keys {v : Verifier} (hkeys : v.keys = knownVerifier.keys) :
    v.Takes sampleSpec.publicKey := Or.inl ⟨_, by rw [hkeys]; rfl, rfl⟩

theorem ladder_start_still : (Session.start ⟨fun _ => 0⟩).ladder = stillLadder := by
  decide +kernel

theorem finalDigest_sampleImage : sampleImage.finalDigest = sampleDigest := by decide +kernel

theorem power_sampleSignature :
    sampleSpec.publicKey.power sampleSignature =
      encodeDigest sampleDigest sampleSpec.key.isLegacy := by
  rw [PublicKey.power_eq_iff (by decide) (Words.odd_toNat (by decide))]
  exact ⟨by decide +kernel, by decide +kernel⟩

-- Where the sample image stands there is an image with a valid signature.
theorem exists_admitted?_sampleImage {v : Verifier} (hinfo : v.info = InfoBank.erased)
    (htakes : v.Takes sampleSpec.publicKey) (offset : Nat) (rest : Bytes) :
    ∃ image, v.admitted? ⟨offset, sampleImage.bytes ++ rest⟩ = some image ∧
      image.header = sampleImage.header ∧ image.hashes.final = sampleDigest ∧
      image.hashes.checksums image.header = ⟨true, true, true⟩ ∧ image.HasValidSignature := by
  obtain ⟨image, hadmitted, hheader, -, hkey, hfinal, hchecksums⟩ :=
    v.admitted?_generated sampleSpec sampleCrypto sampleSignature rfl sampleSpec_fits hinfo htakes
      offset rest
  rw [show (sampleSpec.checkedHeader sampleCrypto).2 = sampleDigest from
    finalDigest_sampleImage] at hfinal
  rw [← hheader] at hchecksums
  refine ⟨image, hadmitted, hheader, hfinal, hchecksums, ?_⟩
  have hsignature : image.header.signature = sampleSignature :=
    ImageSpec.signature_of_header_eq hheader
  rw [SignedImage.HasValidSignature, hkey, hsignature, hfinal]
  exact power_sampleSignature

/-! ## Acceptance -/

/-- A generated image with a right signature is accepted wherever it stands in flash and whatever
the session is, and the digest that is verified is the one that was signed. -/
theorem generated_image_accepted (spec : ImageSpec) (crypto : Crypto)
    {privateExponent signature : Number} {image : GeneratedImage}
    (hkey : spec.key.privateExponent = some privateExponent)
    (hgenerate : spec.generate crypto = .ok image)
    (hsha : crypto.sha256 = Sha256.digest)
    (hsign : crypto.sign (encodeDigest image.finalDigest spec.key.isLegacy) spec.key.modulus
      privateExponent = .ok signature)
    (hvalid : spec.publicKey.power signature =
      encodeDigest image.finalDigest spec.key.isLegacy)
    (v : Verifier) (hinfo : v.info = spec.info) (htakes : v.Takes spec.publicKey)
    (session : Session) (before after : Bytes) :
    let buf := before ++ image.bytes ++ after
    let report := (v.verifyCandidate session buf before.length).report
    report.kind = .header spec.family ∧ report.disposition = .verified ∧
      report.unlocked = true ∧ report.checksums = ⟨true, true, true⟩ ∧
      Candidate.parse buf before.length = .ok (.header image.header) ∧
      ∃ hashes,
        HashChain.compute v.info image.header
          ((buf.drop before.length).take image.header.imageSize.toNat) = .ok hashes ∧
        hashes.final = image.finalDigest ∧ report.hashHeads = some hashes.heads := by
  intro buf report
  obtain ⟨hfits, signature', hsign', rfl⟩ :=
    (spec.generate_eq_ok_iff crypto hkey).mp hgenerate
  obtain rfl : signature' = signature := Except.ok.inj (hsign'.symm.trans hsign)
  have hsite : Site.of buf before.length =
      ⟨before.length, (spec.signedHeader crypto signature').encode ++ spec.payload ++ after⟩ := by
    simp only [Site.of, buf, GeneratedImage.bytes, List.append_assoc, List.drop_left]
  obtain ⟨image, hadmitted, hheader, hfamily, hresolved, hfinal, hchecksums⟩ :=
    v.admitted?_generated spec crypto signature' hsha hfits hinfo htakes before.length after
  rw [← hsite] at hadmitted
  rw [← hheader] at hchecksums ⊢
  obtain ⟨hcandidate, -, ⟨bytes, hbytes, hcompute⟩, -⟩ :=
    v.image?_eq_some_iff.mp (v.admitted?_eq_some_iff.mp hadmitted).1
  -- the signature covers the final digest, so that no session refuses the image
  have hsignature : image.header.signature = signature' := by rw [hheader]; rfl
  have hverdict := session.verdict_ne_refused_of_isCovered image v.options.skipHashChecking
    ⟨_, Or.inr hfinal.symm, by rw [hresolved, hsignature]; exact hvalid⟩
  have hreport : report = v.verdictReport before.length image _ :=
    (v.verifySite_of_admitted hadmitted session).1
  have htaken := (Bytes.first?_eq_some_iff.mp hbytes).2
  refine ⟨?_, ?_, ?_, ?_, hcandidate, image.hashes, htaken ▸ hcompute, hfinal, ?_⟩
  all_goals rw [hreport]
  · rw [← hfamily]
    rfl
  · exact beq_iff_eq.mp ((v.isVerified_verdictReport _ _ _).mpr hverdict)
  · exact bne_iff_ne.mpr hverdict
  · exact hchecksums
  · rfl

theorem sample_image_accepted :
    sampleSpec.generate sampleCrypto = .ok sampleImage ∧
      (sampleVerifier.verifyCandidate sampleSession
        (erasedSector ++ sampleImage.bytes ++ erasedSector)
        erasedSector.length).report.disposition = .verified := by
  have hvalid : sampleSpec.publicKey.power sampleSignature =
      encodeDigest sampleImage.finalDigest sampleSpec.key.isLegacy := by
    rw [finalDigest_sampleImage, power_sampleSignature]
  obtain ⟨-, hverified, -⟩ := generated_image_accepted sampleSpec sampleCrypto rfl
    generate_sampleSpec rfl rfl hvalid sampleVerifier rfl sampleVerifier_takes sampleSession
    erasedSector erasedSector
  exact ⟨generate_sampleSpec, hverified⟩

end SignedFlash
