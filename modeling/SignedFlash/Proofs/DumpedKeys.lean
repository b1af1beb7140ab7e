import SignedFlash.Command.Dump
import SignedFlash.Proofs.Boundaries
import SignedFlash.Proofs.KeyTables
import SignedFlash.Proofs.Layout
import Mathlib.Data.List.Nodup

/-!
# What a dump lists

A dump lists every header of a flash image, in the order of their offsets, and for every key id at
most one key: the key of the first header with that id whose key obeys the rules of keys. A header
whose key does not is passed over, and a later one may give the key.
-/

namespace SignedFlash

/-- Whether a header stands at a boundary of a flash image. -/
structure IsHeaderAt (buf : Bytes) (offset : Nat) (h : Header) : Prop where
  aligned : alignment ∣ offset
  parses : Candidate.parse buf offset = .ok (.header h)

/-- Whether the key of a header obeys the rules of keys: its modulus is odd, and its key id is the
Montgomery inverse of the modulus. -/
structure Header.HasUsableKey (h : Header) : Prop where
  odd : h.key.getD 0 &&& 1 ≠ 0
  inverse : h.keyId * h.key.getD 0 = 0xffffffff

theorem IsHeaderAt.lt {buf : Bytes} {offset : Nat} {h : Header}
    (hheader : IsHeaderAt buf offset h) : offset < buf.length := by
  obtain ⟨hroom, -⟩ := Candidate.parse_eq_ok hheader.parses
  have hsize : 0 < structureSize := by decide
  omega

theorem IsHeaderAt.exists_family {buf : Bytes} {offset : Nat} {h : Header}
    (hheader : IsHeaderAt buf offset h) : ∃ family, h.family? = some family := by
  obtain ⟨-, hcheck⟩ := Candidate.parse_eq_ok hheader.parses
  exact Option.isSome_iff_exists.mp (Header.check_eq_ok_iff.mp hcheck).1

-- Only one header stands at an offset.
theorem IsHeaderAt.unique {buf : Bytes} {offset : Nat} {h h' : Header}
    (hheader : IsHeaderAt buf offset h) (hother : IsHeaderAt buf offset h') : h' = h := by
  have hsame := hother.parses.symm.trans hheader.parses
  cases hsame
  rfl

/-! ## Keys of headers -/

namespace Header

variable {h : Header}

/-- The key of a header with a given exponent. -/
def keyWith (h : Header) (exponent : Exponent) : PublicKey := ⟨h.keyId, h.key, exponent⟩

theorem HasUsableKey.entry (husable : h.HasUsableKey) (name : String) (family : Family)
    (role : KeyRole) (exponent : Exponent) :
    KeyEntry.new name family role h.keyId h.key.toList exponent.value =
      .ok ⟨name, family, role, h.keyWith exponent⟩ := by
  have hkey : PublicKey.new h.keyId h.key exponent = .ok (h.keyWith exponent) :=
    PublicKey.new_eq_ok_iff.mpr ⟨husable.odd, husable.inverse, rfl⟩
  rw [KeyEntry.new_toList, hkey]
  rfl

theorem hasUsableKey_of_entry {name : String} {family : Family} {role : KeyRole}
    {exponent : Exponent} {entry : KeyEntry}
    (hentry : KeyEntry.new name family role h.keyId h.key.toList exponent.value = .ok entry) :
    h.HasUsableKey ∧ entry = ⟨name, family, role, h.keyWith exponent⟩ := by
  rw [KeyEntry.new_toList] at hentry
  cases hkey : PublicKey.new h.keyId h.key exponent with
  | error fault => simp [hkey, Except.map] at hentry
  | ok key =>
    obtain ⟨hodd, hinverse, rfl⟩ := PublicKey.new_eq_ok_iff.mp hkey
    rw [hkey] at hentry
    exact ⟨⟨hodd, hinverse⟩, (Except.ok.inj hentry).symm⟩

end Header

/-- The exponent that a dump gives a key: 65537 if the image at a site verifies with it. -/
def checkedExponent (source : RandomSource) (site : Site) (h : Header) (family : Family)
    (role : KeyRole) : Exponent :=
  let entry : KeyEntry := ⟨"e65537 check", family, role, h.keyWith .fermatFour⟩
  let v : Verifier := ⟨{ strictKeys := true }, ⟨[entry]⟩, InfoBank.erased⟩
  if (v.verifySite (Session.start source) site).report.isVerified then .fermatFour else .three

theorem detectExponent_of_usable {h : Header} (husable : h.HasUsableKey) (source : RandomSource)
    (site : Site) (family : Family) (role : KeyRole) :
    ∃ log, detectExponent source site h family role =
      some (checkedExponent source site h family role, log) := by
  unfold detectExponent
  rw [husable.entry]
  exact ⟨_, rfl⟩

theorem detectExponent_of_not_usable {h : Header} (hunusable : ¬h.HasUsableKey)
    (source : RandomSource) (site : Site) (family : Family) (role : KeyRole) :
    detectExponent source site h family role = none := by
  unfold detectExponent
  split
  case h_1 => rfl
  case h_2 entry hentry => exact absurd (Header.hasUsableKey_of_entry hentry).1 hunusable

/-! ## One site -/

/-- The details of a header that a dump lists. -/
def ImageDetails.of (offset : Nat) (h : Header) (family : Family) : ImageDetails :=
  ⟨offset, family, family.sectionAt h.roBase, h.keyId, h.signature, h.fuseMap, h.infoMap⟩

/-- The key of a header as a dump lists it, with the exponent that was found for it. -/
def KeySetting.of (h : Header) (family : Family) (exponent : Exponent) : KeySetting where
  name := family.name ++ " " ++ (family.sectionAt h.roBase).keyRole.name ++ " " ++
    Text.hex 8 h.keyId.toNat
  family := family
  role := (family.sectionAt h.roBase).keyRole
  keyId := some h.keyId
  exponent := some exponent.value
  modulus := some h.key.toList
  pem := none

namespace Site

/-- The header at a site, if there is one. -/
def header? (site : Site) : Option Header :=
  match site.candidate with
  | .ok (.header h) => some h
  | _ => none

/-- What a dump lists of a site among its headers. -/
def details? (site : Site) : Option ImageDetails :=
  site.header?.bind fun h => h.family?.map (ImageDetails.of site.offset h)

/-- What a dump lists of a site among its keys, if the key id is new. -/
def key? (source : RandomSource) (site : Site) : Option KeySetting :=
  site.header?.bind fun h => h.family?.bind fun family =>
    (detectExponent source site h family (family.sectionAt h.roBase).keyRole).map fun found =>
      KeySetting.of h family found.1

theorem header?_eq_some_iff {site : Site} {h : Header} :
    site.header? = some h ↔ site.candidate = .ok (.header h) := by
  unfold header?
  split
  case h_1 h' hcandidate => simp [hcandidate]
  case h_2 hother => simpa using fun hcandidate => hother h hcandidate

theorem header?_of_not_isCandidate {site : Site} (h : site.isCandidate = false) :
    site.header? = none := by
  cases hheader : site.header? with
  | none => rfl
  | some header =>
    rw [isCandidate, header?_eq_some_iff.mp hheader] at h
    exact nomatch h

end Site

/-! ## One key for each key id -/

/-- A list of keys with one more, unless its key id is there. -/
def addNew (keys : List KeySetting) (key : KeySetting) : List KeySetting :=
  if keys.any fun former => former.keyId == key.keyId then keys else keys ++ [key]

theorem addNew_of_mem {keys : List KeySetting} {key : KeySetting}
    (h : key.keyId ∈ keys.map KeySetting.keyId) : addNew keys key = keys := by
  obtain ⟨former, hformer, hkeyId⟩ := List.mem_map.mp h
  exact if_pos (List.any_eq_true.mpr ⟨former, hformer, by simp [hkeyId]⟩)

theorem addNew_of_notMem {keys : List KeySetting} {key : KeySetting}
    (h : key.keyId ∉ keys.map KeySetting.keyId) : addNew keys key = keys ++ [key] := by
  refine if_neg fun hany => ?_
  obtain ⟨former, hformer, hkeyId⟩ := List.any_eq_true.mp hany
  exact h (List.mem_map.mpr ⟨former, hformer, beq_iff_eq.mp hkeyId⟩)

theorem addNew_nodup {keys : List KeySetting} (hkeys : (keys.map KeySetting.keyId).Nodup)
    (key : KeySetting) : ((addNew keys key).map KeySetting.keyId).Nodup := by
  by_cases h : key.keyId ∈ keys.map KeySetting.keyId
  · rwa [addNew_of_mem h]
  · rw [addNew_of_notMem h, List.map_append]
    exact hkeys.append (List.nodup_singleton _) (by simpa using h)

theorem foldl_addNew_nodup (more : List KeySetting) {keys : List KeySetting}
    (hkeys : (keys.map KeySetting.keyId).Nodup) :
    ((more.foldl addNew keys).map KeySetting.keyId).Nodup := by
  induction more generalizing keys with
  | nil => exact hkeys
  | cons key more ih => exact ih (addNew_nodup hkeys key)

/-- A key is added if it is the first with its key id. -/
theorem mem_foldl_addNew_iff (more keys : List KeySetting) (key : KeySetting) :
    key ∈ more.foldl addNew keys ↔
      key ∈ keys ∨ key.keyId ∉ keys.map KeySetting.keyId ∧
        (more.find? fun other => other.keyId == key.keyId) = some key := by
  induction more generalizing keys with
  | nil => simp
  | cons next more ih =>
    rw [List.foldl_cons, ih]
    by_cases hsame : next.keyId = key.keyId
    · have hfind : (next :: more).find? (fun other => other.keyId == key.keyId) = some next :=
        List.find?_cons_of_pos (by simp [hsame])
      rw [hfind]
      by_cases hold : next.keyId ∈ keys.map KeySetting.keyId
      · rw [addNew_of_mem hold]
        simp only [← hsame, hold, not_true_eq_false, false_and]
      · rw [addNew_of_notMem hold]
        simp only [← hsame, hold, List.mem_append, List.mem_singleton, List.map_append]
        simp [eq_comm]
    · have hfind : (next :: more).find? (fun other => other.keyId == key.keyId) =
          more.find? fun other => other.keyId == key.keyId :=
        List.find?_cons_of_neg (by simpa using hsame)
      have hne : key ≠ next := fun h => hsame (h ▸ rfl)
      rw [hfind]
      by_cases hold : next.keyId ∈ keys.map KeySetting.keyId
      · rw [addNew_of_mem hold]
      · rw [addNew_of_notMem hold]
        simp [hne, Ne.symm hsame]

/-! ## All sites -/

namespace Dump

variable (source : RandomSource)

theorem addHeader_fst (state : Dump × List LogLine) (site : Site) (h : Header) (family : Family) :
    (addHeader source site h family state).1 =
      ⟨match detectExponent source site h family (family.sectionAt h.roBase).keyRole with
        | none => state.1.keys
        | some found => addNew state.1.keys (KeySetting.of h family found.1),
      state.1.images ++ [ImageDetails.of site.offset h family]⟩ := by
  unfold addHeader addNew
  by_cases hold : (state.1.keys.any fun key => key.keyId == some h.keyId) = true
  · cases detectExponent source site h family (family.sectionAt h.roBase).keyRole <;>
      simp [hold, KeySetting.of, ImageDetails.of]
  · cases hfound : detectExponent source site h family (family.sectionAt h.roBase).keyRole <;>
      simp [hold, hfound, KeySetting.of, ImageDetails.of]

-- What one more site adds.
theorem addCandidate_fst (state : Dump × List LogLine) (site : Site) :
    (addCandidate source state site).1 =
      ⟨(site.key? source).toList.foldl addNew state.1.keys,
        state.1.images ++ site.details?.toList⟩ := by
  unfold addCandidate Site.key? Site.details? Site.header?
  cases site.candidate with
  | error fault => simp
  | ok candidate =>
    cases candidate with
    | manifest m => simp
    | header h =>
      cases hfamily : h.family? with
      | none => simp [hfamily]
      | some family =>
        simp only [hfamily, addHeader_fst]
        cases hfound : detectExponent source site h family (family.sectionAt h.roBase).keyRole <;>
          simp [hfound, hfamily]

theorem foldl_addCandidate_fst (sites : List Site) (state : Dump × List LogLine) :
    (sites.foldl (addCandidate source) state).1 =
      ⟨(sites.filterMap (Site.key? source)).foldl addNew state.1.keys,
        state.1.images ++ sites.filterMap Site.details?⟩ := by
  induction sites generalizing state with
  | nil => simp
  | cons site sites ih =>
    rw [List.foldl_cons, ih, addCandidate_fst]
    cases hkey : site.key? source <;> cases hdetails : site.details? <;> simp [hkey, hdetails]

end Dump

theorem filterMap_candidates {α : Type} (buf : Bytes) (start : Nat) (f : Site → Header → Option α) :
    (candidates buf start).filterMap (fun site => site.header?.bind (f site)) =
      (sites buf start).filterMap fun site => site.header?.bind (f site) := by
  rw [candidates, List.filterMap_filter]
  apply List.filterMap_congr
  intro site _
  cases hcandidate : site.isCandidate with
  | true => rfl
  | false => simp [Site.header?_of_not_isCandidate hcandidate]

/-- A dump of a flash image lists the keys and headers at its boundaries. -/
theorem dumpImage_fst (source : RandomSource) {buf : Bytes} (hlength : buf.length ≤ maxLength) :
    (dumpImage source buf).1 =
      ⟨((boundaries 0 buf.length).filterMap fun offset =>
          (Site.of buf offset).key? source).foldl addNew [],
        (boundaries 0 buf.length).filterMap fun offset => (Site.of buf offset).details?⟩ := by
  have hkeys : (candidates buf 0).filterMap (Site.key? source) =
      (sites buf 0).filterMap (Site.key? source) :=
    filterMap_candidates buf 0 _
  have hdetails : (candidates buf 0).filterMap Site.details? =
      (sites buf 0).filterMap Site.details? := filterMap_candidates buf 0 _
  rw [dumpImage, Dump.foldl_addCandidate_fst, hkeys, hdetails, sites_eq hlength,
    List.filterMap_map, List.filterMap_map]
  rfl

/-! ## What is listed -/

section

variable {buf : Bytes} {offset : Nat}

theorem isHeaderAt_iff {h : Header} :
    IsHeaderAt buf offset h ↔
      offset ∈ boundaries 0 buf.length ∧ (Site.of buf offset).header? = some h := by
  rw [Site.header?_eq_some_iff, Site.candidate_of, mem_boundaries_iff]
  constructor
  · intro hheader
    exact ⟨⟨hheader.aligned, Nat.zero_le _, hheader.lt⟩, hheader.parses⟩
  · rintro ⟨⟨haligned, -, -⟩, hparses⟩
    exact ⟨haligned, hparses⟩

theorem details?_of_eq_some_iff {d : ImageDetails} :
    (Site.of buf offset).details? = some d ↔
      ∃ h family, (Site.of buf offset).header? = some h ∧ h.family? = some family ∧
        d = ImageDetails.of offset h family := by
  simp only [Site.details?, Option.bind_eq_some_iff, Option.map_eq_some_iff]
  constructor
  · rintro ⟨h, hheader, family, hfamily, rfl⟩
    exact ⟨h, family, hheader, hfamily, rfl⟩
  · rintro ⟨h, family, hheader, hfamily, rfl⟩
    exact ⟨h, hheader, family, hfamily, rfl⟩

theorem key?_of_eq_some_iff (source : RandomSource) {key : KeySetting} :
    (Site.of buf offset).key? source = some key ↔
      ∃ h family, (Site.of buf offset).header? = some h ∧ h.family? = some family ∧
        h.HasUsableKey ∧ key = KeySetting.of h family
          (checkedExponent source (Site.of buf offset) h family
            (family.sectionAt h.roBase).keyRole) := by
  simp only [Site.key?, Option.bind_eq_some_iff, Option.map_eq_some_iff]
  constructor
  · rintro ⟨h, hheader, family, hfamily, found, hfound, rfl⟩
    by_cases husable : h.HasUsableKey
    · obtain ⟨log, hdetect⟩ := detectExponent_of_usable husable source (Site.of buf offset) family
        (family.sectionAt h.roBase).keyRole
      obtain rfl := Option.some.inj (hfound.symm.trans hdetect)
      exact ⟨h, family, hheader, hfamily, husable, rfl⟩
    · rw [detectExponent_of_not_usable husable] at hfound
      exact nomatch hfound
  · rintro ⟨h, family, hheader, hfamily, husable, rfl⟩
    obtain ⟨log, hdetect⟩ := detectExponent_of_usable husable source (Site.of buf offset) family
      (family.sectionAt h.roBase).keyRole
    exact ⟨h, hheader, family, hfamily, _, hdetect, rfl⟩

end

/-- Whether a header is the first of a flash image with its key id and a usable key. -/
structure IsFirstWithKey (buf : Bytes) (offset : Nat) (h : Header) : Prop
    extends IsHeaderAt buf offset h where
  usable : h.HasUsableKey
  first : ∀ before other, before < offset → IsHeaderAt buf before other → other.keyId = h.keyId →
    ¬other.HasUsableKey

theorem isFirstWithKey_iff (source : RandomSource) {buf : Bytes} {offset : Nat} {h : Header} :
    IsFirstWithKey buf offset h ↔
      IsHeaderAt buf offset h ∧ h.HasUsableKey ∧
        ∀ before ∈ boundaries 0 buf.length, before < offset →
          ((Site.of buf before).key? source).any (fun key => key.keyId == some h.keyId) =
            false := by
  constructor
  · intro hfirst
    refine ⟨hfirst.toIsHeaderAt, hfirst.usable, fun before hbefore hlt => ?_⟩
    cases hkey : (Site.of buf before).key? source with
    | none => rfl
    | some key =>
      obtain ⟨other, family, hother, -, husable, rfl⟩ := (key?_of_eq_some_iff source).mp hkey
      have hne : other.keyId ≠ h.keyId := fun hsame =>
        hfirst.first before other hlt (isHeaderAt_iff.mpr ⟨hbefore, hother⟩) hsame husable
      simpa [KeySetting.of] using hne
  · rintro ⟨hheader, husable, hfirst⟩
    refine ⟨hheader, husable, fun before other hlt hother hsame hotherUsable => ?_⟩
    obtain ⟨hbefore, hat⟩ := isHeaderAt_iff.mp hother
    obtain ⟨family, hfamily⟩ := hother.exists_family
    have hkey := (key?_of_eq_some_iff source).mpr ⟨other, family, hat, hfamily, hotherUsable, rfl⟩
    have hnone := hfirst before hbefore hlt
    rw [hkey] at hnone
    simp [KeySetting.of, hsame] at hnone

/-- The keys of a dump are those of the first headers with usable keys. -/
theorem mem_keys_dumpImage_iff (source : RandomSource) {buf : Bytes}
    (hlength : buf.length ≤ maxLength) {key : KeySetting} :
    key ∈ (dumpImage source buf).1.keys ↔
      ∃ offset h family, IsFirstWithKey buf offset h ∧ h.family? = some family ∧
        key = KeySetting.of h family
          (checkedExponent source (Site.of buf offset) h family
            (family.sectionAt h.roBase).keyRole) := by
  have hsorted := boundaries_sorted 0 buf.length
  rw [dumpImage_fst source hlength, mem_foldl_addNew_iff, List.find?_filterMap]
  simp only [List.not_mem_nil, false_or, List.map_nil, not_false_iff, true_and,
    Option.bind_eq_some_iff, find?_sorted_eq_some_iff hsorted]
  constructor
  · rintro ⟨offset, ⟨hoffset, -, hleast⟩, hkey⟩
    obtain ⟨h, family, hheader, hfamily, husable, rfl⟩ := (key?_of_eq_some_iff source).mp hkey
    have hfirst : IsFirstWithKey buf offset h := (isFirstWithKey_iff source).mpr
      ⟨isHeaderAt_iff.mpr ⟨hoffset, hheader⟩, husable, hleast⟩
    exact ⟨offset, h, family, hfirst, hfamily, rfl⟩
  · rintro ⟨offset, h, family, hfirst, hfamily, rfl⟩
    obtain ⟨hheader, husable, hleast⟩ := (isFirstWithKey_iff source).mp hfirst
    obtain ⟨hoffset, hat⟩ := isHeaderAt_iff.mp hheader
    have hkey := (key?_of_eq_some_iff source).mpr ⟨h, family, hat, hfamily, husable, rfl⟩
    exact ⟨offset, ⟨hoffset, by simp [hkey], hleast⟩, hkey⟩

theorem keys_dumpImage_nodup (source : RandomSource) {buf : Bytes}
    (hlength : buf.length ≤ maxLength) :
    ((dumpImage source buf).1.keys.map KeySetting.keyId).Nodup := by
  rw [dumpImage_fst source hlength]
  exact foldl_addNew_nodup _ List.nodup_nil

/-- Of the headers with one key id and a usable key there is a first. -/
theorem IsHeaderAt.exists_first {buf : Bytes} {offset : Nat} {h : Header}
    (hheader : IsHeaderAt buf offset h) (husable : h.HasUsableKey) :
    ∃ first h', IsFirstWithKey buf first h' ∧ h'.keyId = h.keyId := by
  induction offset using Nat.strongRecOn generalizing h with
  | ind offset ih =>
    by_cases hearlier : ∃ before other, before < offset ∧ IsHeaderAt buf before other ∧
        other.keyId = h.keyId ∧ other.HasUsableKey
    · obtain ⟨before, other, hlt, hother, hsame, hotherUsable⟩ := hearlier
      obtain ⟨first, h', hfirst, hkeyId⟩ := ih before hlt hother hotherUsable
      exact ⟨first, h', hfirst, hkeyId.trans hsame⟩
    · exact ⟨offset, h, ⟨hheader, husable, fun before other hlt hother hsame hotherUsable =>
        hearlier ⟨before, other, hlt, hother, hsame, hotherUsable⟩⟩, rfl⟩

/-- The headers of a dump are those of the flash image, in the order of their offsets. -/
theorem images_dumpImage (source : RandomSource) {buf : Bytes} (hlength : buf.length ≤ maxLength) :
    ((dumpImage source buf).1.images.map ImageDetails.offset).Pairwise (· < ·) ∧
      ∀ d, d ∈ (dumpImage source buf).1.images ↔
        ∃ offset h family, IsHeaderAt buf offset h ∧ h.family? = some family ∧
          d = ImageDetails.of offset h family := by
  rw [dumpImage_fst source hlength]
  constructor
  · rw [List.pairwise_map, List.pairwise_filterMap]
    refine (boundaries_sorted 0 buf.length).imp fun {before offset} hlt d hd d' hd' => ?_
    obtain ⟨h, family, -, -, rfl⟩ := details?_of_eq_some_iff.mp hd
    obtain ⟨h', family', -, -, rfl⟩ := details?_of_eq_some_iff.mp hd'
    exact hlt
  · intro d
    simp only [List.mem_filterMap, details?_of_eq_some_iff, isHeaderAt_iff]
    constructor
    · rintro ⟨offset, hoffset, h, family, hat, hfamily, rfl⟩
      exact ⟨offset, h, family, ⟨hoffset, hat⟩, hfamily, rfl⟩
    · rintro ⟨offset, h, family, ⟨hoffset, hat⟩, hfamily, rfl⟩
      exact ⟨offset, hoffset, h, family, hat, hfamily, rfl⟩

/-- A key id is listed if some header has it together with a usable key. -/
theorem exists_key_dumpImage_iff (source : RandomSource) {buf : Bytes}
    (hlength : buf.length ≤ maxLength) (keyId : Word) :
    (∃ key ∈ (dumpImage source buf).1.keys, key.keyId = some keyId) ↔
      ∃ offset h, IsHeaderAt buf offset h ∧ h.keyId = keyId ∧ h.HasUsableKey := by
  constructor
  · rintro ⟨key, hkey, hkeyId⟩
    obtain ⟨offset, h, family, hfirst, -, rfl⟩ := (mem_keys_dumpImage_iff source hlength).mp hkey
    exact ⟨offset, h, hfirst.toIsHeaderAt, Option.some.inj hkeyId, hfirst.usable⟩
  · rintro ⟨offset, h, hheader, rfl, husable⟩
    obtain ⟨first, h', hfirst, hkeyId⟩ := hheader.exists_first husable
    obtain ⟨family, hfamily⟩ := hfirst.exists_family
    exact ⟨_, (mem_keys_dumpImage_iff source hlength).mpr ⟨first, h', family, hfirst, hfamily, rfl⟩,
      congrArg some hkeyId⟩

end SignedFlash
