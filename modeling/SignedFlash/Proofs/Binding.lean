import SignedFlash.Proofs.Rescans

/-!
# What a final digest binds

The final digest covers the digests of three byte strings: the hashed part of an image, the sensed
fuse words and the sensed info words. As long as no two byte strings share a digest it stands for
one image, except for the signature and the checksum of the image, which come before the hashed
part. So does the magic number, but a word of the info bank is sensed with the constant of the chip
family whether the header selects it or not.
-/

namespace SignedFlash

/-! ## What is hashed -/

/-- Whether no byte string of one list has the digest of a different one of the other list. -/
def Sha256.NoCollision (messages messages' : List Bytes) : Prop :=
  ∀ m ∈ messages, ∀ m' ∈ messages', digest m = digest m' → m = m'

theorem Sha256.NoCollision.cons {m m' : Bytes} {messages messages' : List Bytes}
    (hno : NoCollision (m :: messages) (m' :: messages')) :
    (digest m = digest m' → m = m') ∧ NoCollision messages messages' :=
  ⟨hno m List.mem_cons_self m' List.mem_cons_self, fun m hm m' hm' =>
    hno m (List.mem_cons_of_mem _ hm) m' (List.mem_cons_of_mem _ hm')⟩

/-- The bytes of an image that are hashed. -/
def Header.hashedPart (h : Header) (image : Bytes) : Bytes :=
  (image.take h.imageSize.toNat).drop hashedFrom

namespace HashChain

variable {info : Bank} {image image' : Bytes} {h h' : Header} {hashes hashes' : HashChain}

/-- The byte strings that are hashed for an image, that of the final digest last. -/
def messages (info : Bank) (h : Header) (image : Bytes) : List Bytes :=
  let part := h.hashedPart image
  let fuses := (FuseBank.sense (FuseBank.ofHeader h) h).bytes
  let info := (InfoBank.sense info h).bytes
  [part, fuses, info,
    (Sha256.digest part).bytes ++ (Sha256.digest fuses).bytes ++ (Sha256.digest info).bytes]

/-- Whether an image starts with the given valid header, and has the given digests on a chip with
the given info bank. -/
structure IsOf (info : Bank) (image : Bytes) (h : Header) (hashes : HashChain) : Prop where
  header : Header.decode (image.take structureSize) = h
  valid : h.check = .ok ()
  digests : compute info h image = .ok hashes

theorem compute_eq_ok_iff :
    compute info h image = .ok hashes ↔
      (Header.hashedFrom ≤ h.imageSize.toNat ∧ h.imageSize.toNat ≤ image.length) ∧
        hashes = ofDigests (Sha256.digest (h.hashedPart image))
          (Sha256.digestWords (FuseBank.sense (FuseBank.ofHeader h) h))
          (Sha256.digestWords (InfoBank.sense info h)) := by
  unfold compute Header.hashedPart
  split
  · rename_i hbounds
    exact ⟨fun hok => ⟨hbounds, (Except.ok.inj hok).symm⟩,
      fun hsome => congrArg Except.ok hsome.2.symm⟩
  · rename_i hbounds
    exact ⟨nofun, fun hsome => absurd hsome.1 hbounds⟩

-- From the final digest back to its three digests, and from each of these to what was hashed.
theorem hashed_eq_of_final_eq (hdigests : compute info h image = .ok hashes)
    (hdigests' : compute info h' image' = .ok hashes')
    (hno : Sha256.NoCollision (messages info h image) (messages info h' image'))
    (hfinal : hashes'.final = hashes.final) :
    h'.hashedPart image' = h.hashedPart image ∧ InfoBank.sense info h' = InfoBank.sense info h := by
  obtain ⟨-, rfl⟩ := compute_eq_ok_iff.mp hdigests
  obtain ⟨-, rfl⟩ := compute_eq_ok_iff.mp hdigests'
  obtain ⟨hpart, hno⟩ := hno.cons
  obtain ⟨-, hno⟩ := hno.cons
  obtain ⟨hinfo, hno⟩ := hno.cons
  -- all digests have the same length
  obtain ⟨hfront, hinfo'⟩ := List.append_inj' (hno.cons.1 hfinal.symm)
    (by rw [Words.length_bytes, Words.length_bytes])
  obtain ⟨hpart', -⟩ := List.append_inj' hfront (by rw [Words.length_bytes, Words.length_bytes])
  exact ⟨(hpart (Words.bytes_injective hpart')).symm,
    (Words.bytes_injective (hinfo (Words.bytes_injective hinfo'))).symm⟩

theorem checksums_of_check_eq_ok (hcheck : hashes.check h = .ok ()) :
    hashes.checksums h = ⟨true, true, true⟩ := by
  rw [← check_isOk_iff, hcheck]
  rfl

theorem imageCheck_of_check_eq_ok (hcheck : hashes.check h = .ok ()) :
    h.imageCheck = hashes.image.getD 0 :=
  beq_iff_eq.mp (congrArg ChecksumMatch.image (checksums_of_check_eq_ok hcheck))

end HashChain

/-! ## The chip family -/

section Families

variable {h h' : Header}

theorem Header.magic_eq_of_check (hcheck : h.check = .ok ()) : h.magic = h.sensingFamily.magic := by
  obtain ⟨family, hfamily⟩ := Option.isSome_iff_exists.mp (check_eq_ok_iff.mp hcheck).1
  rw [sensingFamily, hfamily]
  exact Family.eq_magic_of_ofMagic? hfamily

-- Any one word shows the constant of the family, be it selected or not.
theorem InfoBank.sensingFamily_eq_of_sense_eq {info : Bank} (hmap : h'.infoMap = h.infoMap)
    (hsense : sense info h' = sense info h) : h'.sensingFamily = h.sensingFamily := by
  have hfirst := congrArg (fun bank : Bank => bank.getD 0) hsense
  simp only [sense] at hfirst
  rw [Words.getD_mapIdx _ _ (by decide), Words.getD_mapIdx _ _ (by decide), hmap] at hfirst
  apply Family.infoIgnore_injective
  split at hfirst
  · exact (UInt32.xor_left_inj _).mp hfirst
  · exact hfirst

end Families

/-! ## Bytes in their places -/

/-- Whether two byte strings differ only from `start` up to `stop`, as far as `size`. -/
def Bytes.DifferOnlyIn (start stop size : Nat) (bytes bytes' : Bytes) : Prop :=
  ∀ i < size, bytes'[i]? ≠ bytes[i]? → start ≤ i ∧ i < stop

-- Equal parts at the same place hold equal bytes.
theorem Bytes.getElem?_eq_of_part_eq {bytes bytes' : Bytes} {start count i : Nat}
    (hpart : (bytes'.drop start).take count = (bytes.drop start).take count)
    (hstart : start ≤ i) (hstop : i < start + count) : bytes'[i]? = bytes[i]? := by
  have hbyte (bytes : Bytes) : bytes[i]? = ((bytes.drop start).take count)[i - start]? := by
    rw [List.getElem?_take_of_lt (by omega), List.getElem?_drop, Nat.add_sub_cancel' hstart]
  rw [hbyte bytes, hbyte bytes', hpart]

theorem Bytes.getElem?_eq_of_word_eq {bytes bytes' : Bytes} {offset i : Nat}
    (hlength : offset + 4 ≤ bytes.length) (hlength' : offset + 4 ≤ bytes'.length)
    (hword : Shape.word.readAt bytes' offset = Shape.word.readAt bytes offset)
    (hstart : offset ≤ i) (hstop : i < offset + 4) : bytes'[i]? = bytes[i]? := by
  apply getElem?_eq_of_part_eq _ hstart hstop
  rw [← Shape.bytes_readAt_word hlength, ← Shape.bytes_readAt_word hlength', hword]

namespace HashChain.IsOf

variable {info : Bank} {image image' : Bytes} {h h' : Header} {hashes hashes' : HashChain}

theorem get_eq_read (himage : IsOf info image h hashes) (f : Header.Field) :
    h.get f = Header.read (image.take structureSize) f := by
  rw [← himage.header, Header.get_decode]

theorem image_eq (himage : IsOf info image h hashes) :
    hashes.image = Sha256.digest (h.hashedPart image) := by
  obtain ⟨-, rfl⟩ := compute_eq_ok_iff.mp himage.digests
  rfl

-- An image holds its header and more.
theorem bounds (himage : IsOf info image h hashes) :
    structureSize ≤ h.imageSize.toNat ∧ h.imageSize.toNat ≤ image.length := by
  have hleast : minImageSize.toNat ≤ h.imageSize.toNat :=
    UInt32.le_iff_toNat_le.mp (Header.check_eq_ok_iff.mp himage.valid).2.1
  have hroom : structureSize ≤ minImageSize.toNat := by decide
  exact ⟨by omega, (compute_eq_ok_iff.mp himage.digests).1.2⟩

theorem length_window (himage : IsOf info image h hashes) :
    (image.take structureSize).length = structureSize := by
  obtain ⟨hroom, hwhole⟩ := himage.bounds
  exact List.length_take_of_le (hroom.trans hwhole)

theorem length_hashedPart (himage : IsOf info image h hashes) :
    (h.hashedPart image).length + Header.hashedFrom = h.imageSize.toNat := by
  obtain ⟨⟨hfrom, hto⟩, -⟩ := compute_eq_ok_iff.mp himage.digests
  rw [Header.hashedPart, List.length_drop, List.length_take_of_le hto, Nat.sub_add_cancel hfrom]

-- The header reaches into the hashed part, with all fields from the tag on.
theorem drop_window (himage : IsOf info image h hashes) :
    (image.take structureSize).drop Header.hashedFrom =
      (h.hashedPart image).take (structureSize - Header.hashedFrom) := by
  rw [Header.hashedPart, List.drop_take, List.drop_take, List.take_take, Nat.min_eq_left]
  exact Nat.sub_le_sub_right himage.bounds.1 _

theorem imageSize_eq_of_hashedPart_eq (himage : IsOf info image h hashes)
    (himage' : IsOf info image' h' hashes') (hpart : h'.hashedPart image' = h.hashedPart image) :
    h'.imageSize = h.imageSize := by
  rw [← UInt32.toNat_inj, ← himage.length_hashedPart, ← himage'.length_hashedPart, hpart]

theorem get_eq_of_hashedPart_eq (himage : IsOf info image h hashes)
    (himage' : IsOf info image' h' hashes') (hpart : h'.hashedPart image' = h.hashedPart image)
    {f : Header.Field} (hf : Header.hashedFrom ≤ f.offset) : h'.get f = h.get f := by
  rw [himage.get_eq_read, himage'.get_eq_read]
  apply Shape.readAt_congr _ _ hf
  rw [himage.drop_window, himage'.drop_window, hpart]

theorem magic_eq_of_hashed_eq (himage : IsOf info image h hashes)
    (himage' : IsOf info image' h' hashes') (hpart : h'.hashedPart image' = h.hashedPart image)
    (hinfo : InfoBank.sense info h' = InfoBank.sense info h) : h'.magic = h.magic := by
  have hmap : h'.infoMap = h.infoMap :=
    himage.get_eq_of_hashedPart_eq himage' hpart (f := .infoMap) (by decide)
  rw [Header.magic_eq_of_check himage.valid, Header.magic_eq_of_check himage'.valid,
    InfoBank.sensingFamily_eq_of_sense_eq hmap hinfo]

-- A word of the header stands in the image with its bytes.
theorem getElem?_eq_of_word_eq (himage : IsOf info image h hashes)
    (himage' : IsOf info image' h' hashes') {offset i : Nat} (hoffset : offset + 4 ≤ structureSize)
    (hword : Shape.word.readAt (image'.take structureSize) offset =
      Shape.word.readAt (image.take structureSize) offset)
    (hstart : offset ≤ i) (hstop : i < offset + 4) : image'[i]? = image[i]? := by
  have hbyte := Bytes.getElem?_eq_of_word_eq (by rwa [himage.length_window])
    (by rwa [himage'.length_window]) hword hstart hstop
  rwa [List.getElem?_take_of_lt (by omega), List.getElem?_take_of_lt (by omega)] at hbyte

theorem differOnlyIn_of_magic_eq (himage : IsOf info image h hashes)
    (himage' : IsOf info image' h' hashes') (hpart : h'.hashedPart image' = h.hashedPart image)
    (hmagic : h'.magic = h.magic) :
    Bytes.DifferOnlyIn Header.Field.signature.offset Header.hashedFrom h.imageSize.toNat
      image image' := by
  have hword := (himage'.get_eq_read .magic).symm.trans (hmagic.trans (himage.get_eq_read .magic))
  have hsize := himage.imageSize_eq_of_hashedPart_eq himage' hpart
  rw [Header.hashedPart, Header.hashedPart, hsize, List.drop_take, List.drop_take] at hpart
  intro i hi hbyte
  constructor
  · -- the magic number takes up all bytes before the signature
    refine Nat.le_of_not_lt fun hfront => hbyte ?_
    exact himage.getElem?_eq_of_word_eq himage' (by decide) hword (Nat.zero_le i) hfront
  · refine Nat.lt_of_not_le fun hback => hbyte ?_
    exact Bytes.getElem?_eq_of_part_eq hpart hback (by omega)

end HashChain.IsOf

/-! ## Images with one final digest -/

/-- Two images with the same final digest have the same size, the same hashed part and the same
magic number. All that may differ are the signature and the checksum of the image, and if the
checksums of both are right, only the signature. -/
theorem final_digest_binds_image (info : Bank) {image image' : Bytes} {h h' : Header}
    {hashes hashes' : HashChain} (himage : HashChain.IsOf info image h hashes)
    (himage' : HashChain.IsOf info image' h' hashes')
    (hno : Sha256.NoCollision (HashChain.messages info h image)
      (HashChain.messages info h' image'))
    (hfinal : hashes'.final = hashes.final) :
    h'.imageSize = h.imageSize ∧ h'.hashedPart image' = h.hashedPart image ∧
      h'.magic = h.magic ∧ h'.family? = h.family? ∧
      h' = { h with signature := h'.signature, imageCheck := h'.imageCheck } ∧
      Bytes.DifferOnlyIn Header.Field.signature.offset Header.hashedFrom h.imageSize.toNat
        image image' ∧
      (hashes.check h = .ok () → hashes'.check h' = .ok () →
        h' = { h with signature := h'.signature } ∧
          Bytes.DifferOnlyIn Header.Field.signature.offset Header.Field.imageCheck.offset
            h.imageSize.toNat image image') := by
  obtain ⟨hpart, hinfo⟩ :=
    HashChain.hashed_eq_of_final_eq himage.digests himage'.digests hno hfinal
  have hmagic : h'.magic = h.magic := himage.magic_eq_of_hashed_eq himage' hpart hinfo
  have hsame : h' = { h with signature := h'.signature, imageCheck := h'.imageCheck } := by
    apply Header.ext_get
    intro f
    cases f with
    | magic => exact hmagic
    | signature => rfl
    | imageCheck => rfl
    | _ => exact himage.get_eq_of_hashedPart_eq himage' hpart (by decide)
  have hdiffer := himage.differOnlyIn_of_magic_eq himage' hpart hmagic
  refine ⟨himage.imageSize_eq_of_hashedPart_eq himage' hpart, hpart, hmagic,
    congrArg Family.ofMagic? hmagic, hsame, hdiffer, ?_⟩
  -- the checksum repeats the digest of the hashed part
  intro hcheck hcheck'
  have himageCheck : h'.imageCheck = h.imageCheck := by
    rw [HashChain.imageCheck_of_check_eq_ok hcheck, HashChain.imageCheck_of_check_eq_ok hcheck',
      himage.image_eq, himage'.image_eq, hpart]
  have hword := (himage'.get_eq_read .imageCheck).symm.trans
    (himageCheck.trans (himage.get_eq_read .imageCheck))
  refine ⟨hsame.trans (by rw [himageCheck]), fun i hi hbyte => ?_⟩
  obtain ⟨hfrom, hto⟩ := hdiffer i hi hbyte
  refine ⟨hfrom, Nat.lt_of_not_le fun hbehind => hbyte ?_⟩
  exact himage.getElem?_eq_of_word_eq himage' (by decide) hword hbehind hto

/-! ## A signed image and its unsigned copy -/

section Generated

variable (spec : ImageSpec) (crypto : Crypto)

theorem ImageSpec.isOf_signedBytes (signature : Number) (hsha : crypto.sha256 = Sha256.digest)
    (hfits : spec.Fits) :
    ∃ hashes, HashChain.IsOf spec.info (spec.signedBytes crypto signature)
        (spec.signedHeader crypto signature) hashes ∧
      hashes.final = (spec.checkedHeader crypto).2 ∧
      hashes.check (spec.signedHeader crypto signature) = .ok () := by
  obtain ⟨hashes, hdigests, hfinal, hchecksums⟩ :=
    spec.compute_signedHeader crypto signature hsha hfits.large
  have hheader : Header.decode ((spec.signedBytes crypto signature).take structureSize) =
      spec.signedHeader crypto signature := by
    rw [signedBytes, ← Header.length_encode, List.take_left, Header.decode_encode]
  have hcheck : hashes.check (spec.signedHeader crypto signature) = .ok () := by
    rw [HashChain.check, hchecksums]
    rfl
  have hvalid := spec.check_signedHeader crypto signature hfits
  exact ⟨hashes, ⟨hheader, hvalid, hdigests⟩, hfinal, hcheck⟩

-- The signature is filled in before the hashed part.
theorem ImageSpec.messages_signedBytes (signature signature' : Number) :
    HashChain.messages spec.info (spec.signedHeader crypto signature')
        (spec.signedBytes crypto signature') =
      HashChain.messages spec.info (spec.signedHeader crypto signature)
        (spec.signedBytes crypto signature) := by
  have hdrop : (spec.signedHeader crypto signature').encode.drop Header.hashedFrom =
      (spec.signedHeader crypto signature).encode.drop Header.hashedFrom := by
    apply Header.drop_encode_congr
    intro f hf
    cases f <;> first | rfl | exact absurd hf (by decide)
  have hlength (signature : Number) :
      Header.hashedFrom ≤ (spec.signedHeader crypto signature).encode.length := by
    rw [Header.length_encode]
    decide
  have hpart : (spec.signedHeader crypto signature').hashedPart
        (spec.signedBytes crypto signature') =
      (spec.signedHeader crypto signature).hashedPart (spec.signedBytes crypto signature) := by
    unfold Header.hashedPart signedBytes
    rw [List.drop_take, List.drop_take, List.drop_append_of_le_length (hlength _),
      List.drop_append_of_le_length (hlength _), hdrop]
    rfl
  unfold HashChain.messages
  rw [hpart]
  rfl

end Generated

/-- The digests of all that is hashed for the sample image. -/
def sampleDigests : List Digest := [
  ⟨[0x8a747e88, 0x5a644c40, 0x1b3e0822, 0x8cd816a8,
    0x30b84777, 0x5d9e61b8, 0x563363f2, 0x3a01f36b], rfl⟩,
  ⟨[0x0fe15152, 0x315958b9, 0x2f3eab2a, 0x85f1bd9b,
    0x8438a55b, 0x7a83639b, 0xdf0af206, 0x3fb6be74], rfl⟩,
  ⟨[0x2674fcd0, 0xccad1304, 0x6c172a1f, 0xec36a7dd,
    0xb490257c, 0x44bb7d78, 0xfb7956be, 0x3a8a20bc], rfl⟩,
  sampleDigest]

theorem digests_sampleImage :
    (HashChain.messages InfoBank.erased sampleImage.header sampleImage.bytes).map Sha256.digest =
      sampleDigests := by
  decide +kernel

-- The same four byte strings are hashed for the sample image and for its unsigned copy.
theorem noCollision_unsigned :
    Sha256.NoCollision
      (HashChain.messages InfoBank.erased sampleImage.header sampleImage.bytes)
      (HashChain.messages InfoBank.erased (sampleSpec.signedHeader sampleCrypto (.zero 96))
        unsignedBytes) := by
  have hnodup : ((HashChain.messages InfoBank.erased sampleImage.header sampleImage.bytes).map
      Sha256.digest).Nodup := by
    rw [digests_sampleImage]
    decide
  intro m hm m' hm' hdigest
  rw [unsignedBytes, show InfoBank.erased = sampleSpec.info from rfl,
    sampleSpec.messages_signedBytes sampleCrypto sampleSignature] at hm'
  exact List.inj_on_of_nodup_map hnodup hm hm' hdigest

/-- An image and its copy without a signature have the same final digest and different bytes, which
are all in the place of the signature. -/
theorem unsigned_copy_shares_digest :
    ∃ hashes hashes',
      HashChain.IsOf InfoBank.erased sampleImage.bytes sampleImage.header hashes ∧
      HashChain.IsOf InfoBank.erased unsignedBytes
        (sampleSpec.signedHeader sampleCrypto (.zero 96)) hashes' ∧
      hashes'.final = hashes.final ∧ unsignedBytes ≠ sampleImage.bytes ∧
      Bytes.DifferOnlyIn 4 388 sampleImage.bytes.length sampleImage.bytes unsignedBytes := by
  obtain ⟨hashes, himage, hfinal, hcheck⟩ :=
    sampleSpec.isOf_signedBytes sampleCrypto sampleSignature rfl sampleSpec_fits
  obtain ⟨hashes', himage', hfinal', hcheck'⟩ :=
    sampleSpec.isOf_signedBytes sampleCrypto (.zero 96) rfl sampleSpec_fits
  have hsame : hashes'.final = hashes.final := hfinal'.trans hfinal.symm
  obtain ⟨-, -, -, -, -, -, hchecked⟩ :=
    final_digest_binds_image InfoBank.erased himage himage' noCollision_unsigned hsame
  have hbytes : unsignedBytes ≠ sampleImage.bytes := by
    intro hbytes
    have hheader := congrArg Header.decode hbytes
    rw [unsignedBytes, ImageSpec.signedBytes, GeneratedImage.bytes, Header.decode_encode_append,
      Header.decode_encode_append] at hheader
    have hsignature : Words.zero 96 = sampleSignature := congrArg Header.signature hheader
    revert hsignature
    decide
  have hlength : sampleImage.bytes.length = sampleImage.header.imageSize.toNat :=
    sampleSpec.length_bytes_signedHeader sampleCrypto sampleSignature sampleSpec_fits.large
  rw [hlength]
  exact ⟨hashes, hashes', himage, himage', hsame, hbytes, (hchecked hcheck hcheck').2⟩

end SignedFlash
