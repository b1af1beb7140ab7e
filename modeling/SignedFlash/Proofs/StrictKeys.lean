import SignedFlash.Proofs.Rescans
import SignedFlash.Proofs.WarmBoot

/-!
# Refusing unknown keys

A strict scan, which refuses unknown keys, looks at the same images as a lenient one but for those
with an unknown key. Only these can make the two remember different images, and they are together
again after the next image that its own signature unlocks. In between the lenient scan may refuse
what the strict one accepts, because a session has room for one digest only.
-/

namespace SignedFlash

/-! ## Images with an unknown key -/

/-- Whether a report accepts an image by its signature, made with a key that nothing vouches for. -/
structure Report.IsSelfSigned (r : Report) : Prop where
  isVerified : r.isVerified = true
  -- not because of an image before it
  bySignature : r.warmBoot = false
  unknownKey : r.hasUnverifiedKey = true

theorem Step.isSelfSigned_report_iff {step : Step} {image : SignedImage}
    (himage : step.image? = some image) :
    step.report.IsSelfSigned ↔ step.session.verdict image step.skipHash = .signed ∧
      image.resolved.source.isUnverified = true := by
  have hkey : step.report.hasUnverifiedKey = image.resolved.source.isUnverified := by
    rw [Step.report_of_image? himage]
    rfl
  rw [← Step.acceptsSignature_report_iff himage, ← hkey]
  constructor
  · rintro ⟨hverified, hwarm, hunknown⟩
    exact ⟨⟨hverified, hwarm⟩, hunknown⟩
  · rintro ⟨⟨hverified, hwarm⟩, hunknown⟩
    exact ⟨hverified, hwarm, hunknown⟩

namespace Verifier

variable (v : Verifier)

/-- The verifier with the option that refuses unknown keys turned on or off. -/
def withStrictKeys (strict : Bool) : Verifier :=
  { v with options := { v.options with strictKeys := strict } }

theorem admitted?_strict (site : Site) :
    (v.withStrictKeys true).admitted? site =
      ((v.withStrictKeys false).admitted? site).filter
        fun image => !image.resolved.source.isUnverified := by
  rw [admitted?, admitted?, Option.filter_filter]
  have hadmits (image : SignedImage) : (v.withStrictKeys true).admits image =
      ((v.withStrictKeys false).admits image && !image.resolved.source.isUnverified) := by
    simp only [admits, withStrictKeys, Bool.true_and, Bool.false_and, Bool.not_false, Bool.and_true]
  exact congrArg (Option.filter · (v.image? site)) (funext hadmits)

theorem admitted?_lenient_of_strict {site : Site} {image : SignedImage}
    (h : (v.withStrictKeys true).admitted? site = some image) :
    (v.withStrictKeys false).admitted? site = some image := by
  rw [admitted?_strict] at h
  exact (Option.filter_eq_some_iff.mp h).1

theorem isUnverified_of_not_strict {site : Site} {image : SignedImage}
    (hlenient : (v.withStrictKeys false).admitted? site = some image)
    (hstrict : (v.withStrictKeys true).admitted? site = none) :
    image.resolved.source.isUnverified = true := by
  rw [admitted?_strict, hlenient, Option.filter_eq_none_iff] at hstrict
  simpa using hstrict image rfl

/-! ## Two scans -/

/-- Whether the lenient scan took an unknown key before the site with the given number, and from
there on no image with a known key was one that its own signature unlocks. -/
def IsDisplaced (session : Session) (buf : Bytes) (start k : Nat) : Prop :=
  ∃ j < k, (∃ r, ((v.withStrictKeys false).scan session buf start).reports[j]? = some r ∧
      r.IsSelfSigned) ∧
    ∀ i site, j < i → i < k → (sites buf start)[i]? = some site →
      (Task.mk (v.withStrictKeys true) site).mark? session.ladder = none

variable {v} {site : Site}

-- An image with a known key that its own signature unlocks is remembered by both.
theorem agrees_next_of_mark? {s l : Session} {ladder digest : Digest} (hs : s.ladder = ladder)
    (hl : l.ladder = ladder)
    (hmark : (Task.mk (v.withStrictKeys true) site).mark? ladder = some digest) :
    (Step.next ⟨⟨v.withStrictKeys true, site⟩, s⟩).Agrees
      (Step.next ⟨⟨v.withStrictKeys false, site⟩, l⟩) := by
  obtain ⟨image, himage, hunlocks⟩ := Task.mark?_eq_some_iff.mp hmark
  have hmark' : (Task.mk (v.withStrictKeys false) site).mark? ladder = some digest :=
    Task.mark?_eq_some_iff.mpr ⟨image, v.admitted?_lenient_of_strict himage, hunlocks⟩
  constructor
  · rw [Step.next_ladder, Step.next_ladder]
    exact hs.trans hl.symm
  · rw [Step.next_warmBoot_of_mark? hs hmark, Step.next_warmBoot_of_mark? hl hmark']

-- Only an unknown key can part the two.
theorem agrees_next_or_isSelfSigned {s l : Session} (h : s.Agrees l) :
    (Step.next ⟨⟨v.withStrictKeys true, site⟩, s⟩).Agrees
        (Step.next ⟨⟨v.withStrictKeys false, site⟩, l⟩) ∨
      (Step.report ⟨⟨v.withStrictKeys false, site⟩, l⟩).IsSelfSigned := by
  let strict : Step := ⟨⟨v.withStrictKeys true, site⟩, s⟩
  let lenient : Step := ⟨⟨v.withStrictKeys false, site⟩, l⟩
  change strict.next.Agrees lenient.next ∨ lenient.report.IsSelfSigned
  have hladder : strict.next.ladder = lenient.next.ladder := by
    rw [Step.next_ladder, Step.next_ladder]
    exact h.ladder
  cases hlenient : lenient.image? with
  | none =>
    have hstrict : strict.image? = none := by
      change (v.withStrictKeys true).admitted? site = none
      rw [v.admitted?_strict, show (v.withStrictKeys false).admitted? site = none from hlenient]
      rfl
    left
    rw [Step.next_of_image?_eq_none hstrict, Step.next_of_image?_eq_none hlenient]
    exact h
  | some image =>
    have hnext := Step.next_warmBoot hlenient
    cases hstrict : strict.image? with
    | none =>
      by_cases hverdict : lenient.session.verdict image lenient.skipHash = .signed
      · right
        exact (Step.isSelfSigned_report_iff hlenient).mpr
          ⟨hverdict, v.isUnverified_of_not_strict hlenient hstrict⟩
      · left
        refine ⟨hladder, ?_⟩
        rw [Step.next_of_image?_eq_none hstrict, hnext, if_neg hverdict]
        exact h.warmBoot
    | some image' =>
      obtain rfl := Option.some.inj
        ((v.admitted?_lenient_of_strict hstrict).symm.trans hlenient)
      left
      refine ⟨hladder, ?_⟩
      have hskip : strict.skipHash = lenient.skipHash := rfl
      rw [Step.next_warmBoot hstrict, hnext, hskip, h.verdict, h.warmRegister, h.warmBoot]

/-- Before every site the two scans remember the same, unless an unknown key displaced it. -/
theorem agrees_or_isDisplaced (session : Session) (buf : Bytes) (start : Nat) {k : Nat}
    (hk : k ≤ (sites buf start).length) :
    ((v.withStrictKeys true).sessionAt session (sites buf start) k).Agrees
        ((v.withStrictKeys false).sessionAt session (sites buf start) k) ∨
      v.IsDisplaced session buf start k := by
  induction k with
  | zero => exact Or.inl (Session.Agrees.refl session)
  | succ k ih =>
    obtain ⟨site, hsite⟩ : ∃ site, (sites buf start)[k]? = some site :=
      ⟨_, List.getElem?_eq_getElem hk⟩
    rw [sessionAt_succ _ _ hsite, sessionAt_succ _ _ hsite]
    cases hmark : (Task.mk (v.withStrictKeys true) site).mark? session.ladder with
    | some digest =>
      exact Or.inl (agrees_next_of_mark? (ladder_sessionAt _ _ _ _) (ladder_sessionAt _ _ _ _)
        hmark)
    | none =>
      rcases ih (Nat.le_of_lt hk) with hagrees | ⟨j, hj, hselfSigned, hbetween⟩
      · rcases agrees_next_or_isSelfSigned hagrees with hnext | hselfSigned
        · exact Or.inl hnext
        · refine Or.inr ⟨k, Nat.lt_succ_self k, ⟨_, ?_, hselfSigned⟩, fun i _ hlt hle => ?_⟩
          · rw [getElem?_reports_scan, hsite]
            rfl
          · omega
      · refine Or.inr ⟨j, Nat.lt_succ_of_lt hj, hselfSigned, fun i site' hlt hle hsite' => ?_⟩
        rcases Nat.lt_succ_iff_lt_or_eq.mp hle with hbefore | rfl
        · exact hbetween i site' hlt hbefore hsite'
        · obtain rfl := Option.some.inj (hsite.symm.trans hsite')
          exact hmark

end Verifier

/-- What a strict scan accepts the lenient scan accepts, unless the image is not unlocked by its own
signature and what it was accepted for is displaced by an image with an unknown key. -/
theorem strict_accepts_less (v : Verifier) (session : Session) (buf : Bytes) (start k : Nat)
    {r : Report} (hr : ((v.withStrictKeys true).scan session buf start).reports[k]? = some r)
    (hverified : r.isVerified = true) :
    ∃ r', ((v.withStrictKeys false).scan session buf start).reports[k]? = some r' ∧
      r'.offset = r.offset ∧
      (r'.isVerified = true ∨
        (∃ site image, (sites buf start)[k]? = some site ∧
          (v.withStrictKeys true).admitted? site = some image ∧
          ¬image.Unlocks v.options.skipHashChecking) ∧
        v.IsDisplaced session buf start k) := by
  rw [Verifier.getElem?_reports_scan, Option.map_eq_some_iff] at hr
  obtain ⟨site, hsite, rfl⟩ := hr
  rw [Verifier.getElem?_reports_scan, hsite, Option.map_some]
  obtain ⟨image, hstrict, hverdict⟩ := Step.isVerified_report_iff.mp hverified
  have hlenient : Step.image? ⟨⟨v.withStrictKeys false, site⟩,
      (v.withStrictKeys false).sessionAt session (sites buf start) k⟩ = some image :=
    v.admitted?_lenient_of_strict hstrict
  refine ⟨_, rfl, by rw [Step.offset_report, Step.offset_report], ?_⟩
  rw [Step.isVerified_report_iff]
  by_cases hunlocks : image.Unlocks v.options.skipHashChecking
  · exact Or.inl ⟨image, hlenient, Session.verdict_ne_refused_iff.mpr (Or.inr (Or.inl hunlocks))⟩
  · obtain ⟨hk, -⟩ := List.getElem?_eq_some_iff.mp hsite
    rcases Verifier.agrees_or_isDisplaced session buf start (Nat.le_of_lt hk) with
      hagrees | hdisplaced
    · rw [hagrees.verdict] at hverdict
      exact Or.inl ⟨image, hlenient, hverdict⟩
    · exact Or.inr ⟨⟨site, image, rfl, hstrict, hunlocks⟩, hdisplaced⟩

/-! ## A displaced image -/

/-- A short image of the legacy development key. -/
def legacySpec : ImageSpec := .new .haven DevelopmentKey.legacy3 (List.replicate 1024 0)

/-- The signature of the legacy image. -/
def legacySignature : Number := .ofList 96 [
  0x81012b4d, 0x0fbcaf01, 0xf75d5786, 0x13699228, 0x9e3d325f, 0x06c787a3, 0xe57b4c3f, 0xc07419c9,
  0xc362cb42, 0xf02ee55f, 0x8931f688, 0xedabc2c4, 0xd8fe7c94, 0x5e5724e7, 0xb694e559, 0x44468825,
  0x2a1ea7b2, 0xb3d3b8e9, 0x84563057, 0x39b74694, 0xeeaf4ac9, 0x1a6ce7fc, 0x1926b0af, 0x296ce7da,
  0x6424789a, 0xc90b8c6b, 0x029b23c8, 0xbc3d860e, 0x8a60f93d, 0x22e4cbaa, 0xdfa7fd5c, 0xeae849b0,
  0x8e17c4fc, 0xd92134b3, 0x16f6aaa2, 0x65ad574a, 0xf66d0b78, 0x24d4e261, 0x5f1eef84, 0x154bc827,
  0xd71dbb56, 0x51b354cc, 0x7824a43c, 0x07e51f5f, 0xa02a90dc, 0xc646c5ef, 0xf7f770f6, 0x04f547ce,
  0xc6d2de57, 0xd192a917, 0xc1955122, 0x2ed5c451, 0x58eb75a8, 0xc49cb11a, 0xb0097952, 0x3c60899a,
  0x57375874, 0xd1efb270, 0x88b8d32b, 0xfbc7a467, 0x51e37c1d, 0xa979f106, 0xff129adb, 0x4a844822]

/-- The legacy image. -/
def legacyBytes : Bytes := legacySpec.signedBytes sampleCrypto legacySignature

/-- The digest that the signature of the legacy image covers. -/
def legacyDigest : Digest :=
  ⟨[0xbeeec0e4, 0x3cc8a22d, 0xa0307ee5, 0x6dbf7270,
    0x07847e0d, 0x116eb0e0, 0xc07c1cd6, 0xcd09b29b], rfl⟩

/-- The sample image, the legacy image, and the sample image without its signature. -/
def displacingFlash : Bytes := sampleImage.bytes ++ (legacyBytes ++ unsignedBytes)

theorem length_payload_legacySpec : legacySpec.payload.length = 1024 := List.length_replicate

theorem length_legacyBytes : legacyBytes.length = alignment :=
  ImageSpec.length_signedBytes length_payload_legacySpec _

theorem finalDigest_legacyImage : (legacySpec.checkedHeader sampleCrypto).2 = legacyDigest := by
  decide +kernel

theorem power_legacySignature :
    legacySpec.publicKey.power legacySignature =
      encodeDigest legacyDigest legacySpec.key.isLegacy := by
  rw [PublicKey.power_eq_iff (by decide) (Words.odd_toNat (by decide))]
  exact ⟨by decide +kernel, by decide +kernel⟩

-- Where the legacy image stands it is admitted only if unknown keys are.
theorem exists_admitted?_legacyImage (offset : Nat) (rest : Bytes) :
    (∃ image, (knownVerifier.withStrictKeys false).admitted? ⟨offset, legacyBytes ++ rest⟩ =
        some image ∧ image.hashes.final = legacyDigest ∧ image.HasValidSignature ∧
      image.resolved.source.isUnverified = true) ∧
      (knownVerifier.withStrictKeys true).admitted? ⟨offset, legacyBytes ++ rest⟩ = none := by
  obtain ⟨image, hadmitted, hheader, -, hkey, hfinal, -⟩ :=
    (knownVerifier.withStrictKeys false).admitted?_generated legacySpec sampleCrypto
      legacySignature rfl
      (ImageSpec.fits_of_length_payload length_payload_legacySpec) rfl
      (Or.inr ⟨by decide, rfl, rfl⟩) offset rest
  rw [finalDigest_legacyImage] at hfinal
  obtain ⟨himage, -⟩ := (Verifier.admitted?_eq_some_iff _).mp hadmitted
  obtain ⟨-, -, -, hresolved⟩ := (Verifier.image?_eq_some_iff _).mp himage
  have hunknown : image.resolved.source.isUnverified = true := by
    have hkeyId : image.header.keyId = legacySpec.key.keyId := by
      rw [hheader]
      rfl
    rw [hresolved, KeyTable.resolve, hkeyId]
    rfl
  have hvalid : image.HasValidSignature := by
    have hsignature : image.header.signature = legacySignature :=
      ImageSpec.signature_of_header_eq hheader
    rw [SignedImage.HasValidSignature, hkey, hsignature, hfinal]
    exact power_legacySignature
  refine ⟨⟨image, hadmitted, hfinal, hvalid, hunknown⟩, ?_⟩
  rw [Verifier.admitted?_strict, legacyBytes, ImageSpec.signedBytes, hadmitted,
    Option.filter_some, hunknown]
  rfl

-- The lenient verifier accepts the legacy image, and the strict one passes over it.
theorem accepted_legacyImage (offset : Nat) (rest : Bytes) (s : Session)
    (hregister : s.warmRegister legacyDigest ≠ unlockSentinel) :
    let task : Task := ⟨knownVerifier.withStrictKeys false, ⟨offset, legacyBytes ++ rest⟩⟩
    (Step.report ⟨task, s⟩).isVerified = true ∧
      (Step.next ⟨task, s⟩).warmBoot = some (s.warmRegister legacyDigest) := by
  intro task
  obtain ⟨⟨image, hadmitted, hfinal, hvalid, -⟩, -⟩ := exists_admitted?_legacyImage offset rest
  have himage : Step.image? ⟨task, s⟩ = some image := hadmitted
  rw [← hfinal] at hregister ⊢
  exact Step.accepted_of_isCovered himage (image.isCovered_false_iff.mpr hvalid) hregister

theorem next_legacyImage (offset : Nat) (rest : Bytes) (s : Session) :
    Step.next ⟨⟨knownVerifier.withStrictKeys true, ⟨offset, legacyBytes ++ rest⟩⟩, s⟩ = s := by
  have himage : Step.image?
      ⟨⟨knownVerifier.withStrictKeys true, ⟨offset, legacyBytes ++ rest⟩⟩, s⟩ = none :=
    (exists_admitted?_legacyImage offset rest).2
  exact Step.next_of_image?_eq_none himage

theorem sites_displacingFlash :
    sites displacingFlash 0 =
      [⟨0, sampleImage.bytes ++ (legacyBytes ++ unsignedBytes)⟩,
        ⟨alignment, legacyBytes ++ unsignedBytes⟩, ⟨alignment * 2, unsignedBytes⟩] := by
  rw [displacingFlash, sites_zero, sitesFrom_append length_sampleImage (by decide),
    sitesFrom_append length_legacyBytes (by decide),
    sitesFrom_image length_unsignedBytes (by decide)]
  rfl

/-- The unsigned image is accepted by the strict scan, and refused by the lenient one. -/
theorem scans_of_displacingFlash :
    let scan (b : Bool) := (knownVerifier.withStrictKeys b).scan (Session.start ⟨fun _ => 0⟩)
      displacingFlash 0
    (∃ r, (scan true).reports[2]? = some r ∧ r.offset = alignment * 2 ∧ r.isVerified = true) ∧
      (scan false).reports.map (fun r => (r.offset, r.isVerified)) =
        [(0, true), (alignment, true), (alignment * 2, false)] := by
  intro scan
  let start : Session := Session.start ⟨fun _ => 0⟩
  let v (b : Bool) : Verifier := knownVerifier.withStrictKeys b
  let first (b : Bool) : Step :=
    ⟨⟨v b, ⟨0, sampleImage.bytes ++ (legacyBytes ++ unsignedBytes)⟩⟩, start⟩
  let second (b : Bool) : Step :=
    ⟨⟨v b, ⟨alignment, legacyBytes ++ unsignedBytes⟩⟩, (first b).next⟩
  let third (b : Bool) : Step := ⟨⟨v b, ⟨alignment * 2, unsignedBytes⟩⟩, (second b).next⟩
  have hscan (b : Bool) :
      (scan b).reports = [(first b).report, (second b).report, (third b).report] := by
    unfold scan
    rw [Verifier.reports_scan, sites_displacingFlash]
    rfl
  have hregister {s : Session} (h : s.ladder = stillLadder) (final : Digest) :
      s.warmRegister final = final.xor stillLadder := by
    rw [Session.warmRegister, h]
  have hladder (b : Bool) : (first b).next.ladder = stillLadder :=
    Step.next_ladder.trans ladder_start_still
  have hladder' (b : Bool) : (second b).next.ladder = stillLadder := by
    rw [Step.next_ladder]
    exact hladder b
  -- what the third step makes of the unsigned image
  have hunsigned (b : Bool) : (third b).report.isVerified = true ↔
      (second b).next.warmBoot = some (sampleDigest.xor stillLadder) ∨
        (second b).next.warmBoot = some unsignedDigest := by
    have hiff := isVerified_unsigned_iff (v := v b) rfl (takes_of_keys rfl) rfl (alignment * 2) []
      (second b).next
    rw [List.append_nil, hregister (hladder' b)] at hiff
    exact hiff.trans (or_iff_right (by decide))
  have hfirst (b : Bool) : (first b).report.isVerified = true ∧
      (first b).next.warmBoot = some (sampleDigest.xor stillLadder) := by
    have haccepted := accepted_sampleImage (v := v b) rfl (takes_of_keys rfl) rfl 0
      (legacyBytes ++ unsignedBytes) start (by
        rw [hregister ladder_start_still]
        decide)
    rwa [hregister ladder_start_still] at haccepted
  constructor
  · refine ⟨(third true).report, by rw [hscan]; rfl, Step.offset_report, ?_⟩
    have hkept : (second true).next = (first true).next := next_legacyImage _ _ _
    rw [hunsigned, hkept]
    exact Or.inl (hfirst true).2
  · obtain ⟨hsecond, hremembered⟩ := accepted_legacyImage alignment unsignedBytes
      (first false).next (by
        rw [hregister (hladder false)]
        decide)
    rw [hregister (hladder false)] at hremembered
    have hthird : (third false).report.isVerified = false := by
      have hdisplaced : (second false).next.warmBoot = some (legacyDigest.xor stillLadder) :=
        hremembered
      rw [← Bool.not_eq_true, hunsigned, hdisplaced]
      decide
    have hsecond' : (second false).report.isVerified = true := hsecond
    rw [hscan, List.map_cons, List.map_cons, List.map_singleton, (hfirst false).1, hsecond',
      hthird, Step.offset_report, Step.offset_report, Step.offset_report]

/-- The unsigned image in that flash is displaced. -/
theorem unsigned_image_is_displaced :
    (∃ r, ((knownVerifier.withStrictKeys true).scan (Session.start ⟨fun _ => 0⟩) displacingFlash
        0).reports[2]? = some r ∧ r.isVerified = true) ∧
      knownVerifier.IsDisplaced (Session.start ⟨fun _ => 0⟩) displacingFlash 0 2 := by
  obtain ⟨⟨r, hr, -, hverified⟩, hlenient⟩ := scans_of_displacingFlash
  obtain ⟨r', hr', -, haccepted | ⟨-, hdisplaced⟩⟩ :=
    strict_accepts_less knownVerifier (Session.start ⟨fun _ => 0⟩) displacingFlash 0 2 hr hverified
  · -- the third report of the lenient scan refuses the image
    have hthird := congrArg (·[2]?) hlenient
    rw [List.getElem?_map, hr', Option.map_some] at hthird
    exact absurd (haccepted.symm.trans (congrArg Prod.snd (Option.some.inj hthird))) (by decide)
  · exact ⟨⟨r, hr, hverified⟩, hdisplaced⟩

/-- So an image can be accepted by the strict scan alone. -/
theorem strict_scan_accepts_alone :
    ¬∀ (v : Verifier) (source : RandomSource) (buf : Bytes) (start offset : Nat),
      (∃ r ∈ ((v.withStrictKeys true).scan (Session.start source) buf start).reports,
        r.offset = offset ∧ r.isVerified = true) →
      ∃ r ∈ ((v.withStrictKeys false).scan (Session.start source) buf start).reports,
        r.offset = offset ∧ r.isVerified = true := by
  intro h
  obtain ⟨⟨r, hr, hoffset, hverified⟩, hlenient⟩ := scans_of_displacingFlash
  obtain ⟨r', hr', hoffset', hverified'⟩ := h knownVerifier ⟨fun _ => 0⟩ displacingFlash 0
    (alignment * 2) ⟨r, List.mem_of_getElem? hr, hoffset, hverified⟩
  have hmem := List.mem_map_of_mem (f := fun r => (r.offset, r.isVerified)) hr'
  rw [hlenient, hoffset', hverified'] at hmem
  revert hmem
  decide

end SignedFlash
