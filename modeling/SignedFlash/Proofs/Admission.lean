import SignedFlash.Proofs.Layout
import SignedFlash.Proofs.Verdict

/-!
# Images that come to their signature

What admission says about a buffer: it holds all of an image, the checksums of the image agree or
are ignored, and its key is known or need not be. A valid header always has digests, as long as the
buffer holds the image that it describes.
-/

namespace SignedFlash

theorem KeyTable.isUnverified_resolve (table : KeyTable) (h : Header) :
    (table.resolve h).source.isUnverified = !(table.get? h.keyId).isSome := by
  unfold resolve
  cases table.get? h.keyId <;> rfl

-- The least size that a header can state reaches beyond the start of the hashed part.
theorem HashChain.exists_compute_eq_ok (info : Bank) {h : Header} {image : Bytes}
    (hcheck : h.check = .ok ()) (hlength : h.imageSize.toNat ≤ image.length) :
    ∃ hashes, compute info h image = .ok hashes := by
  have hsize := UInt32.le_iff_toNat_le.mp (Header.check_eq_ok_iff.mp hcheck).2.1
  have hfrom : Header.hashedFrom ≤ minImageSize.toNat := by decide
  unfold compute
  rw [if_pos ⟨by omega, hlength⟩]
  exact ⟨_, rfl⟩

namespace Verifier

variable (v : Verifier)

theorem admits_eq_true_iff (image : SignedImage)
    (hresolved : image.resolved = v.keys.resolve image.header) :
    v.admits image = true ↔
      (v.options.skipHashChecking = true ∨
        image.hashes.checksums image.header = ⟨true, true, true⟩) ∧
      (v.options.strictKeys = false ∨ (v.keys.get? image.header.keyId).isSome = true) := by
  rw [admits, hresolved, KeyTable.isUnverified_resolve, Bool.and_eq_true, Bool.or_eq_true,
    HashChain.check_isOk_iff, Bool.not_eq_true', Bool.and_eq_false_iff, Bool.not_eq_false']

/-- Whether a buffer holds all of an image at an offset, with the given header and digests. -/
structure IsImage (buf : Bytes) (offset : Nat) (h : Header) (hashes : HashChain) : Prop where
  header : Candidate.parse buf offset = .ok (.header h)
  whole : offset + h.imageSize.toNat ≤ buf.length
  digests : HashChain.compute v.info h ((buf.drop offset).take h.imageSize.toNat) = .ok hashes

/-- Whether that image passes the rules that come before its signature. -/
structure IsAdmitted (buf : Bytes) (offset : Nat) (h : Header) (hashes : HashChain) : Prop
    extends v.IsImage buf offset h hashes where
  checksums : v.options.skipHashChecking = true ∨ hashes.checksums h = ⟨true, true, true⟩
  known : v.options.strictKeys = false ∨ (v.keys.get? h.keyId).isSome = true

variable {v} {buf : Bytes} {offset : Nat}

theorem image?_of_eq_some_iff {image : SignedImage} :
    v.image? (Site.of buf offset) = some image ↔
      v.IsImage buf offset image.header image.hashes ∧
        image.header.family? = some image.family ∧
        image.resolved = v.keys.resolve image.header := by
  have hbytes : (Site.of buf offset).bytes = buf.drop offset := rfl
  rw [image?_eq_some_iff, Site.candidate_of, hbytes]
  constructor
  · rintro ⟨hcandidate, hfamily, ⟨bytes, hfirst, hcompute⟩, hresolved⟩
    obtain ⟨hwhole, rfl⟩ := Bytes.first?_eq_some_iff.mp hfirst
    obtain ⟨hroom, -⟩ := Candidate.parse_eq_ok hcandidate
    rw [List.length_drop] at hwhole
    exact ⟨⟨hcandidate, by omega, hcompute⟩, hfamily, hresolved⟩
  · rintro ⟨⟨hcandidate, hwhole, hcompute⟩, hfamily, hresolved⟩
    refine ⟨hcandidate, hfamily, ⟨_, Bytes.first?_eq_some_iff.mpr ⟨?_, rfl⟩, hcompute⟩, hresolved⟩
    rw [List.length_drop]
    omega

theorem admitted?_of_eq_some_iff {image : SignedImage} :
    v.admitted? (Site.of buf offset) = some image ↔
      v.IsAdmitted buf offset image.header image.hashes ∧
        image.header.family? = some image.family ∧
        image.resolved = v.keys.resolve image.header := by
  rw [admitted?_eq_some_iff, image?_of_eq_some_iff]
  constructor
  · rintro ⟨⟨himage, hfamily, hresolved⟩, hadmits⟩
    obtain ⟨hchecksums, hknown⟩ := (v.admits_eq_true_iff image hresolved).mp hadmits
    exact ⟨⟨himage, hchecksums, hknown⟩, hfamily, hresolved⟩
  · rintro ⟨⟨himage, hchecksums, hknown⟩, hfamily, hresolved⟩
    exact ⟨⟨himage, hfamily, hresolved⟩,
      (v.admits_eq_true_iff image hresolved).mpr ⟨hchecksums, hknown⟩⟩

-- A header that is found belongs to a chip family, and the key table decides on its key.
theorem IsImage.exists_image? {h : Header} {hashes : HashChain}
    (himage : v.IsImage buf offset h hashes) :
    ∃ family, h.family? = some family ∧
      v.image? (Site.of buf offset) = some ⟨h, family, hashes, v.keys.resolve h⟩ := by
  obtain ⟨-, hcheck⟩ := Candidate.parse_eq_ok himage.header
  obtain ⟨family, hfamily⟩ := Option.isSome_iff_exists.mp (Header.check_eq_ok_iff.mp hcheck).1
  exact ⟨family, hfamily, image?_of_eq_some_iff.mpr ⟨himage, hfamily, rfl⟩⟩

theorem IsAdmitted.exists_admitted? {h : Header} {hashes : HashChain}
    (hadmitted : v.IsAdmitted buf offset h hashes) :
    ∃ family, v.admitted? (Site.of buf offset) = some ⟨h, family, hashes, v.keys.resolve h⟩ := by
  obtain ⟨family, hfamily, -⟩ := hadmitted.exists_image?
  exact ⟨family, admitted?_of_eq_some_iff.mpr ⟨hadmitted, hfamily, rfl⟩⟩

-- What is known of an admitted header and its digests is known of the image whose signature is
-- looked at.
theorem exists_isAdmitted_iff {p : Header → HashChain → Prop} :
    (∃ h hashes, v.IsAdmitted buf offset h hashes ∧ p h hashes) ↔
      ∃ image, v.admitted? (Site.of buf offset) = some image ∧ p image.header image.hashes := by
  constructor
  · rintro ⟨h, hashes, hadmitted, hp⟩
    obtain ⟨family, himage⟩ := hadmitted.exists_admitted?
    exact ⟨_, himage, hp⟩
  · rintro ⟨image, himage, hp⟩
    exact ⟨image.header, image.hashes, (admitted?_of_eq_some_iff.mp himage).1, hp⟩

end Verifier

end SignedFlash
