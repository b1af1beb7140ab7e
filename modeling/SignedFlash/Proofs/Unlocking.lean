import SignedFlash.Proofs.Encoding

/-!
# What unlocks an image

Folding leaves one and the same buffer for every signature that is valid, whatever the digest and
the kind of key, and it leaves that buffer for no other signature. The digest of the buffer is the
sentinel. So a signature that unlocks an image without being valid gives another buffer with the
digest of this one, or with that of the image accepted last.
-/

namespace SignedFlash

/-- The buffer that every valid signature leaves. -/
def canonicalBuffer : Number :=
  (encodeDigest (.zero 8) false).mapIdx fun i w =>
    if i < 8 then 0x1010 else w ^^^ (0x1000 + UInt32.ofNat i)

theorem digestWords_canonicalBuffer : Sha256.digestWords canonicalBuffer = unlockSentinel := by
  decide +kernel

/-! ## Folding an encoded digest -/

theorem foldedWord_eq_iff (final : Digest) {i : Nat} (h : i < 8) (w : Word) :
    foldedWord final false i (w ^^^ (0x1000 + UInt32.ofNat i)) = 0x1010 ↔
      w = Word.swapBytes (final.getD (7 - i)) := by
  -- the constants of the two folds always combine to the same word
  have hplace : (0x1000 + UInt32.ofNat i) ^^^ (UInt32.ofNat i + 0x10) = 0x1010 := by
    interval_cases i <;> rfl
  have hmix (a b c d : Word) : a ^^^ c ^^^ (b ^^^ d) = a ^^^ b ^^^ (c ^^^ d) := by ac_rfl
  rw [foldedWord, if_neg Bool.false_ne_true, hmix, hplace]
  constructor
  · intro hword
    have hzero := congrArg (· ^^^ (0x1010 : Word)) hword
    rw [UInt32.xor_assoc, UInt32.xor_self, UInt32.xor_zero] at hzero
    exact UInt32.xor_eq_zero_iff.mp hzero
  · rintro rfl
    rw [UInt32.xor_self, UInt32.zero_xor]

-- Folding leaves the canonical buffer if the high words are those of an encoded digest and the low
-- words come out right.
theorem fold_eq_canonicalBuffer_iff (buf : Number) (final : Digest) (skipHash : Bool)
    (start start' : Nat) :
    foldDigest (foldPlaces buf start) final skipHash start' = canonicalBuffer ↔
      (∀ i < 8, foldedWord final skipHash i (buf.getD i ^^^ (0x1000 + UInt32.ofNat i)) = 0x1010) ∧
        ∀ i, 8 ≤ i → i < 96 → buf.getD i = (encodeDigest (.zero 8) false).getD i := by
  constructor
  · intro h
    have hword {i : Nat} (hi : i < 96) :
        (foldDigest (foldPlaces buf start) final skipHash start').getD i =
          canonicalBuffer.getD i := by rw [h]
    constructor
    · intro i hi
      have hlow := hword (i := i) (by omega)
      rwa [getD_foldDigest _ _ _ _ (by omega), getD_foldPlaces _ _ (by omega), if_pos hi,
        canonicalBuffer, Words.getD_mapIdx _ _ (by omega), if_pos hi] at hlow
    · intro i hge hlt
      have hhigh := hword hlt
      rw [getD_foldDigest _ _ _ _ hlt, getD_foldPlaces _ _ hlt, if_neg (by omega),
        canonicalBuffer, Words.getD_mapIdx _ _ hlt, if_neg (by omega)] at hhigh
      exact (UInt32.xor_left_inj _).mp hhigh
  · rintro ⟨hlow, hhigh⟩
    apply Words.ext_getD
    intro i hi
    rw [getD_foldDigest _ _ _ _ hi, getD_foldPlaces _ _ hi, canonicalBuffer,
      Words.getD_mapIdx _ _ hi]
    by_cases h : i < 8
    · rw [if_pos h, if_pos h, hlow i h]
    · rw [if_neg h, if_neg h, hhigh i (by omega) hi]

theorem eq_encodeDigest_iff (buf : Number) (digest : Digest) :
    buf = encodeDigest digest false ↔
      (∀ i < 8, buf.getD i = Word.swapBytes (digest.getD (7 - i))) ∧
        ∀ i, 8 ≤ i → i < 96 → buf.getD i = (encodeDigest (.zero 8) false).getD i := by
  constructor
  · rintro rfl
    refine ⟨fun i hi => getD_encodeDigest_of_lt _ _ hi, fun i hge hlt => ?_⟩
    rw [getD_encodeDigest_of_ge _ _ hge hlt, getD_encodeDigest_of_ge _ _ hge hlt]
  · rintro ⟨hlow, hhigh⟩
    apply Words.ext_getD
    intro i hi
    by_cases h : i < 8
    · rw [hlow i h, getD_encodeDigest_of_lt _ _ h]
    · rw [hhigh i (by omega) hi, getD_encodeDigest_of_ge _ _ (by omega) hi,
        getD_encodeDigest_of_ge _ _ (by omega) hi]

theorem fold_canonical_iff (buf : Number) (final : Digest) (start start' : Nat) :
    foldDigest (foldPlaces buf start) final false start' = canonicalBuffer ↔
      buf = encodeDigest final false := by
  rw [fold_eq_canonicalBuffer_iff, eq_encodeDigest_iff]
  refine and_congr_left' (forall_congr' fun i => forall_congr' fun hi => ?_)
  exact foldedWord_eq_iff final hi (buf.getD i)

-- If the digest does not count, the low words are overwritten: they are those of some digest in any
-- case.
theorem fold_canonical_skip_iff (buf : Number) (final : Digest) (start start' : Nat) :
    foldDigest (foldPlaces buf start) final true start' = canonicalBuffer ↔
      ∃ digest, buf = encodeDigest digest false := by
  rw [fold_eq_canonicalBuffer_iff]
  constructor
  · rintro ⟨-, hhigh⟩
    refine ⟨digestOfLowWords buf, (eq_encodeDigest_iff _ _).mpr ⟨fun i hi => ?_, hhigh⟩⟩
    rw [← getD_encodeDigest_of_lt _ false hi, getD_encodeDigest_digestOfLowWords _ _ hi]
  · rintro ⟨digest, hbuf⟩
    exact ⟨fun i _ => rfl, ((eq_encodeDigest_iff _ _).mp hbuf).2⟩

/-! ## The buffer of a signature -/

namespace PublicKey

variable (key : PublicKey)

/-- A signature raised to the public exponent, in the layout of a long key. -/
def liftedPower (signature : Number) : Number :=
  if key.isLegacy then liftLegacy (key.power signature) else key.power signature

theorem liftedPower_eq_encodeDigest_iff (signature : Number) (digest : Digest) :
    key.liftedPower signature = encodeDigest digest false ↔
      key.power signature = encodeDigest digest key.isLegacy := by
  unfold liftedPower
  cases hlegacy : key.isLegacy with
  | false => rfl
  | true =>
    rw [if_pos rfl, ← liftLegacy_encodeDigest]
    exact ⟨fun h => liftLegacy_injective h, fun h => h ▸ rfl⟩

/-- The buffer that folding leaves of a signature. -/
def foldedBuffer (signature : Number) (final : Digest) (skipHash : Bool) : Number :=
  foldDigest (foldPlaces (key.liftedPower signature) 0) final skipHash 0

/-- Whether a signature covers a digest or, if the digest does not count, any digest at all. -/
def Covers (signature : Number) (final : Digest) (skipHash : Bool) : Prop :=
  ∃ digest, (skipHash ∨ digest = final) ∧
    key.power signature = encodeDigest digest key.isLegacy

theorem covers_false_iff (signature : Number) (final : Digest) :
    key.Covers signature final false ↔
      key.power signature = encodeDigest final key.isLegacy := by
  constructor
  · rintro ⟨digest, hfinal, h⟩
    obtain rfl : digest = final := hfinal.resolve_left Bool.false_ne_true
    exact h
  · exact fun h => ⟨final, Or.inr rfl, h⟩

theorem covers_true_iff (signature : Number) (final : Digest) :
    key.Covers signature final true ↔
      ∃ digest, key.power signature = encodeDigest digest key.isLegacy :=
  exists_congr fun _ => and_iff_right (Or.inl rfl)

theorem foldedBuffer_eq_canonicalBuffer_iff (signature : Number) (final : Digest)
    (skipHash : Bool) :
    key.foldedBuffer signature final skipHash = canonicalBuffer ↔
      key.Covers signature final skipHash := by
  unfold foldedBuffer
  cases skipHash with
  | false => rw [fold_canonical_iff, liftedPower_eq_encodeDigest_iff, covers_false_iff]
  | true =>
    rw [fold_canonical_skip_iff]
    refine exists_congr fun digest => ?_
    rw [liftedPower_eq_encodeDigest_iff]
    exact ⟨fun h => ⟨Or.inl rfl, h⟩, fun h => h.2⟩

end PublicKey

namespace Session

variable (session : Session) (key : PublicKey) (signature : Number) (final : Digest)
  (skipHash : Bool)

-- The random places where folding starts do not show in the buffer.
theorem recover_fst : (session.recover key signature final skipHash).1 =
    key.foldedBuffer signature final skipHash := by
  apply Words.ext_getD
  intro i hi
  change (foldDigest (foldPlaces (key.liftedPower signature) _) final skipHash _).getD i = _
  rw [PublicKey.foldedBuffer, getD_foldDigest _ _ _ _ hi, getD_foldDigest _ _ _ _ hi,
    getD_foldPlaces _ _ hi, getD_foldPlaces _ _ hi]

-- A digest that does not count is not looked at.
theorem recover_skip (final' : Digest) :
    session.recover key signature final' true = session.recover key signature final true := by
  simp only [recover, foldDigest, if_true]

theorem unlocked_eq_true_iff (register : Digest) :
    session.unlocked register = true ↔
      register = unlockSentinel ∨ session.warmBoot = some register := by
  rw [unlocked, Bool.or_eq_true, beq_iff_eq, beq_iff_eq]

theorem verifySignature_buffer :
    (session.verifySignature key signature final skipHash).buffer =
      key.foldedBuffer signature final skipHash := session.recover_fst ..

theorem verifySignature_unlocked :
    (session.verifySignature key signature final skipHash).unlocked =
      session.unlocked (Sha256.digestWords (key.foldedBuffer signature final skipHash)) := by
  rw [← session.recover_fst]
  rfl

theorem verifySignature_unlocked_of_covers (h : key.Covers signature final skipHash) :
    (session.verifySignature key signature final skipHash).unlocked = true := by
  rw [verifySignature_unlocked, unlocked_eq_true_iff,
    (key.foldedBuffer_eq_canonicalBuffer_iff signature final skipHash).mpr h]
  exact Or.inl digestWords_canonicalBuffer

end Session

/-- Verifying a signature leaves the canonical buffer exactly if the signature is valid, and then
unlocks the image in every session. -/
theorem unlock_oracle_exact (session : Session) (key : PublicKey) (signature : Number)
    (final : Digest) :
    ((session.recover key signature final false).1 = canonicalBuffer ↔
      key.power signature = encodeDigest final key.isLegacy) ∧
    Sha256.digestWords canonicalBuffer = unlockSentinel ∧
    (key.power signature = encodeDigest final key.isLegacy →
      (session.verifySignature key signature final false).unlocked = true) ∧
    ((session.verifySignature key signature final false).unlocked = true →
      key.power signature ≠ encodeDigest final key.isLegacy →
      ∃ buffer, buffer = (session.recover key signature final false).1 ∧
        buffer ≠ canonicalBuffer ∧
        (Sha256.digestWords buffer = unlockSentinel ∨
          session.warmBoot = some (Sha256.digestWords buffer))) := by
  have hcovers := key.covers_false_iff signature final
  have hexact := key.foldedBuffer_eq_canonicalBuffer_iff signature final false
  rw [session.recover_fst, hexact, hcovers]
  refine ⟨Iff.rfl, digestWords_canonicalBuffer, fun hvalid => ?_, fun hunlocked hinvalid => ?_⟩
  · exact session.verifySignature_unlocked_of_covers _ _ _ _ (hcovers.mpr hvalid)
  · refine ⟨_, rfl, fun h => hinvalid (hcovers.mp (hexact.mp h)), ?_⟩
    rwa [session.verifySignature_unlocked, session.unlocked_eq_true_iff] at hunlocked

/-- If the digest does not count, verifying a signature leaves the canonical buffer exactly if the
signature is valid for some digest, which is if it leaves this buffer where some digest counts,
wherever folding starts. The digest that does not count does not show in what is left. -/
theorem skipping_accepts_any_signed_digest (session session' : Session) (key : PublicKey)
    (signature : Number) (final : Digest) :
    ((session.recover key signature final true).1 = canonicalBuffer ↔
      ∃ digest, key.power signature = encodeDigest digest key.isLegacy) ∧
    ((session.recover key signature final true).1 = canonicalBuffer ↔
      ∃ digest, (session'.recover key signature digest false).1 = canonicalBuffer) ∧
    ∀ final', session.recover key signature final' true =
      session.recover key signature final true := by
  have hskip : (session.recover key signature final true).1 = canonicalBuffer ↔
      ∃ digest, key.power signature = encodeDigest digest key.isLegacy := by
    rw [session.recover_fst, key.foldedBuffer_eq_canonicalBuffer_iff, key.covers_true_iff]
  have hcount (digest : Digest) :
      (session'.recover key signature digest false).1 = canonicalBuffer ↔
        key.power signature = encodeDigest digest key.isLegacy := by
    rw [session'.recover_fst, key.foldedBuffer_eq_canonicalBuffer_iff, key.covers_false_iff]
  refine ⟨hskip, hskip.trans (exists_congr fun digest => (hcount digest).symm),
    session.recover_skip key signature final⟩

end SignedFlash
