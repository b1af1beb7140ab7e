import SignedFlash.Proofs.Generated
import SignedFlash.Proofs.Reporting

/-!
# What a verdict rests on

Verification reads the 1024 bytes at an offset and, if they are a header, the image that the header
describes. What lies before them, what lies behind them, and where in a buffer they lie shows in the
offset of the report alone.
-/

namespace SignedFlash

/-- Whether two buffers hold the same at two offsets: the same 1024 bytes and, if these are a
header, the same image, of which otherwise both hold too little. -/
structure HoldSame (buf : Bytes) (offset : Nat) (buf' : Bytes) (offset' : Nat) : Prop where
  room : offset + structureSize ≤ buf.length
  room' : offset' + structureSize ≤ buf'.length
  window : (buf'.drop offset').take structureSize = (buf.drop offset).take structureSize
  image : ∀ h, Candidate.parse buf offset = .ok (.header h) →
    (offset + h.imageSize.toNat ≤ buf.length ∧ offset' + h.imageSize.toNat ≤ buf'.length ∧
        (buf'.drop offset').take h.imageSize.toNat = (buf.drop offset).take h.imageSize.toNat) ∨
      (buf.length < offset + h.imageSize.toNat ∧ buf'.length < offset' + h.imageSize.toNat)

/-- Whether two verifications come to the same: the reports differ at most in their offsets, and the
sessions afterwards in nothing. -/
structure Verification.SameUpToOffset (result result' : Verification) : Prop where
  report : result'.report = { result.report with offset := result'.report.offset }
  session : result'.session = result.session

/-! ## What is read -/

namespace HoldSame

variable {buf buf' : Bytes} {offset offset' : Nat} (h : HoldSame buf offset buf' offset')
include h

theorem candidate : Candidate.parse buf' offset' = Candidate.parse buf offset := by
  rw [Candidate.parse, Candidate.parse, Candidate.ofFront, Candidate.ofFront,
    Bytes.first?_drop_of_le h.room, Bytes.first?_drop_of_le h.room', h.window]

theorem bytes {hd : Header} (hheader : Candidate.parse buf offset = .ok (.header hd)) :
    Bytes.first? (buf'.drop offset') hd.imageSize.toNat =
      Bytes.first? (buf.drop offset) hd.imageSize.toNat := by
  rcases h.image hd hheader with ⟨hwhole, hwhole', hsame⟩ | ⟨hpast, hpast'⟩
  · rw [Bytes.first?_drop_of_le hwhole, Bytes.first?_drop_of_le hwhole', hsame]
  · have hroom := h.room
    have hroom' := h.room'
    rw [Bytes.first?_drop_of_lt hpast (by omega), Bytes.first?_drop_of_lt hpast' (by omega)]

end HoldSame

/-! ## What becomes of it -/

namespace Verifier

variable (v : Verifier) (session : Session)

theorem sameUpToOffset_verifySigned (h : Header) (hashes : HashChain) (key : PublicKey)
    (report : Report) (offset : Nat) (log log' : List LogLine) :
    (v.verifySigned session h hashes key report log).SameUpToOffset
      (v.verifySigned session h hashes key { report with offset := offset } log') := by
  unfold verifySigned
  split
  · exact ⟨rfl, rfl⟩
  · dsimp only
    split <;> exact ⟨rfl, rfl⟩

theorem sameUpToOffset_verifyHashed (h : Header) (hashes : HashChain) (report : Report)
    (offset : Nat) (log log' : List LogLine) :
    (v.verifyHashed session h hashes report log).SameUpToOffset
      (v.verifyHashed session h hashes { report with offset := offset } log') := by
  unfold verifyHashed
  dsimp only
  split
  · split
    · exact ⟨rfl, rfl⟩
    · exact v.sameUpToOffset_verifySigned session h hashes _ _ _ _ _
  · exact v.sameUpToOffset_verifySigned session h hashes _ _ _ _ _

theorem sameUpToOffset_verifyHeader {site site' : Site} (family : Family) {h : Header}
    (hbytes : site'.bytes.first? h.imageSize.toNat = site.bytes.first? h.imageSize.toNat) :
    (v.verifyHeader session site family h).SameUpToOffset
      (v.verifyHeader session site' family h) := by
  unfold verifyHeader
  rw [hbytes]
  dsimp only
  split
  · exact ⟨rfl, rfl⟩
  split
  · exact ⟨rfl, rfl⟩
  split
  · split
    · exact v.sameUpToOffset_verifyHashed session h _ _ _ _ _
    · exact ⟨rfl, rfl⟩
  · exact v.sameUpToOffset_verifyHashed session h _ _ _ _ _

theorem sameUpToOffset_verifySite {site site' : Site}
    (hcandidate : site'.candidate = site.candidate)
    (hbytes : ∀ h, site.candidate = .ok (.header h) →
      site'.bytes.first? h.imageSize.toNat = site.bytes.first? h.imageSize.toNat) :
    (v.verifySite session site).SameUpToOffset (v.verifySite session site') := by
  unfold verifySite
  rw [hcandidate]
  cases hfound : site.candidate with
  | error fault => exact ⟨rfl, rfl⟩
  | ok candidate =>
    cases candidate with
    | manifest m => exact ⟨rfl, rfl⟩
    | header h =>
      dsimp only
      split
      · exact ⟨rfl, rfl⟩
      · exact v.sameUpToOffset_verifyHeader session _ (hbytes h hfound)

end Verifier

-- An image is held alike by all buffers that contain it.
theorem holdSame_of_surroundings {image : Bytes} (hroom : structureSize ≤ image.length)
    (hwhole : ∀ h, Candidate.parse image 0 = .ok (.header h) → h.imageSize.toNat ≤ image.length)
    (before after : Bytes) :
    HoldSame image 0 (before ++ image ++ after) before.length := by
  have htake {n : Nat} (hn : n ≤ image.length) :
      ((before ++ image ++ after).drop before.length).take n = (image.drop 0).take n := by
    rw [List.append_assoc, List.drop_left, List.take_append_of_le_length hn, List.drop_zero]
  have hlength : (before ++ image ++ after).length =
      before.length + image.length + after.length := by
    rw [List.length_append, List.length_append]
  refine ⟨by omega, by omega, htake hroom, fun h hheader => Or.inl ?_⟩
  have hsize := hwhole h hheader
  exact ⟨by omega, by omega, htake hsize⟩

/-- Where two buffers hold the same, every verifier in every session comes to the same. So neither
the bytes before an image nor those behind it nor its place count. -/
theorem verdict_is_local (v : Verifier) (session : Session) :
    (∀ (buf : Bytes) (offset : Nat) (buf' : Bytes) (offset' : Nat),
        HoldSame buf offset buf' offset' →
        (v.verifyCandidate session buf offset).SameUpToOffset
          (v.verifyCandidate session buf' offset')) ∧
      ∀ image : Bytes, structureSize ≤ image.length →
        (∀ h, Candidate.parse image 0 = .ok (.header h) → h.imageSize.toNat ≤ image.length) →
        ∀ before after : Bytes,
          (v.verifyCandidate session image 0).SameUpToOffset
            (v.verifyCandidate session (before ++ image ++ after) before.length) := by
  have hlocal (buf : Bytes) (offset : Nat) (buf' : Bytes) (offset' : Nat)
      (hsame : HoldSame buf offset buf' offset') :
      (v.verifyCandidate session buf offset).SameUpToOffset
        (v.verifyCandidate session buf' offset') :=
    v.sameUpToOffset_verifySite session hsame.candidate fun h hheader => hsame.bytes hheader
  exact ⟨hlocal, fun image hroom hwhole before after =>
    hlocal _ _ _ _ (holdSame_of_surroundings hroom hwhole before after)⟩

-- The sample image between other bytes, off every boundary, is the image that it is alone.
theorem displaced_image_is_verified :
    let buf : Bytes := [0] ++ sampleImage.bytes ++ erasedSector
    let result := sampleVerifier.verifyCandidate sampleSession buf 1
    HoldSame sampleImage.bytes 0 buf 1 ∧
      (sampleVerifier.verifyCandidate sampleSession sampleImage.bytes 0).SameUpToOffset result ∧
      result.report.isVerified = true := by
  intro buf result
  have hroom : structureSize ≤ sampleImage.bytes.length := by
    rw [length_sampleImage]
    decide
  have hparse : Candidate.parse sampleImage.bytes 0 = .ok (.header sampleImage.header) := by
    rw [Candidate.parse, List.drop_zero]
    exact Candidate.ofFront_encode_append (sampleSpec.check_signedHeader _ _ sampleSpec_fits) _
  have hsite : Site.of buf 1 = ⟨1, sampleImage.bytes ++ erasedSector⟩ := by
    rw [Site.of, show buf = 0 :: (sampleImage.bytes ++ erasedSector) from rfl,
      List.drop_succ_cons, List.drop_zero]
  have hwhole (h : Header) (hheader : Candidate.parse sampleImage.bytes 0 = .ok (.header h)) :
      h.imageSize.toNat ≤ sampleImage.bytes.length := by
    obtain rfl := Candidate.header.inj (Except.ok.inj (hparse.symm.trans hheader))
    rw [imageSize_sampleImage, length_sampleImage]
  have hsame : HoldSame sampleImage.bytes 0 buf 1 :=
    holdSame_of_surroundings hroom hwhole [0] erasedSector
  obtain ⟨hlocal, -⟩ := verdict_is_local sampleVerifier sampleSession
  refine ⟨hsame, hlocal _ _ _ _ hsame, ?_⟩
  obtain ⟨image, hadmitted, -, -, -, hvalid⟩ :=
    exists_admitted?_sampleImage (v := sampleVerifier) rfl sampleVerifier_takes 1 erasedSector
  rw [← hsite] at hadmitted
  have hcovered : image.IsCovered false := image.isCovered_false_iff.mpr hvalid
  have hverdict := sampleSession.verdict_ne_refused_of_isCovered image false hcovered
  have hresult : result = sampleVerifier.verifySite sampleSession (Site.of buf 1) := rfl
  rw [hresult, Verifier.isVerified_verifySite_iff]
  exact ⟨image, hadmitted, hverdict⟩

end SignedFlash
