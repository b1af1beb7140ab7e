import SignedFlash.Proofs.Layout

/-!
# What is a candidate

A window of 1024 bytes is a header or a manifest exactly if it obeys the rules of one, and a header
if it obeys those of both. A window that is neither is refused for the first rule that it violates
of the kind that it claims to be, and one that claims neither is refused as such. Nothing but the
window has a say in this.
-/

namespace SignedFlash

/-! ## Rules in order -/

/-- A rule, and the fault that is reported where it does not hold. -/
structure Rule where
  holds : Prop
  fault : Fault

/-- Whether a fault is that of the first of a list of rules that does not hold. -/
inductive FirstViolated : List Rule → Fault → Prop where
  | here {rule : Rule} {rules : List Rule} (h : ¬rule.holds) :
    FirstViolated (rule :: rules) rule.fault
  | later {rule : Rule} {rules : List Rule} {fault : Fault} (h : rule.holds)
    (hrest : FirstViolated rules fault) : FirstViolated (rule :: rules) fault

theorem FirstViolated.mem_map {rules : List Rule} {fault : Fault}
    (h : FirstViolated rules fault) : fault ∈ rules.map Rule.fault := by
  induction h with
  | here _ => exact List.mem_cons_self
  | later _ _ ih => exact List.mem_cons_of_mem _ ih

-- A first rule that holds is not the one that is violated.
theorem FirstViolated.of_holds {rule : Rule} {rules : List Rule} {fault : Fault}
    (h : FirstViolated (rule :: rules) fault) (hholds : rule.holds) :
    FirstViolated rules fault := by
  cases h with
  | here hviolated => exact absurd hholds hviolated
  | later _ hrest => exact hrest

theorem FirstViolated.unique {rules : List Rule} {fault fault' : Fault}
    (h : FirstViolated rules fault) (h' : FirstViolated rules fault') : fault = fault' := by
  induction h with
  | here hviolated =>
    cases h' with
    | here _ => rfl
    | later hholds _ => exact absurd hholds hviolated
  | later hholds _ ih => exact ih (h'.of_holds hholds)

/-- Whether a result is that of checking rules one after the other. -/
structure Checks (rules : List Rule) (result : Except Fault Unit) : Prop where
  ok_iff : result = .ok () ↔ ∀ rule ∈ rules, rule.holds
  error_iff : ∀ fault, result = .error fault ↔ FirstViolated rules fault

namespace Checks

theorem exists_error {rules : List Rule} {result : Except Fault Unit} (h : Checks rules result)
    (hviolated : ¬∀ rule ∈ rules, rule.holds) : ∃ fault, result = .error fault := by
  cases hresult : result with
  | error fault => exact ⟨fault, rfl⟩
  | ok _ => exact absurd (h.ok_iff.mp hresult) hviolated

theorem nil : Checks [] (.ok ()) where
  ok_iff := ⟨fun _ => nofun, fun _ => rfl⟩
  error_iff _ := ⟨nofun, nofun⟩

-- One more rule in front, checked before the others.
theorem cons {rule : Rule} {rules : List Rule} {result : Except Fault Unit}
    (hrest : Checks rules result) {violated : Prop} [Decidable violated]
    (h : rule.holds ↔ ¬violated) :
    Checks (rule :: rules) (if violated then .error rule.fault else result) := by
  by_cases hviolated : violated
  · rw [if_pos hviolated]
    have hnot : ¬rule.holds := fun hholds => h.mp hholds hviolated
    constructor
    · exact ⟨nofun, fun hall => absurd (hall rule List.mem_cons_self) hnot⟩
    · intro fault
      constructor
      · intro herror
        obtain rfl := Except.error.inj herror
        exact .here hnot
      · intro hfirst
        cases hfirst with
        | here => rfl
        | later hholds => exact absurd hholds hnot
  · rw [if_neg hviolated]
    have hholds : rule.holds := h.mpr hviolated
    constructor
    · rw [hrest.ok_iff, List.forall_mem_cons]
      exact ⟨fun hall => ⟨hholds, hall⟩, fun hall => hall.2⟩
    · intro fault
      rw [hrest.error_iff]
      exact ⟨fun hfirst => .later hholds hfirst, fun hfirst => hfirst.of_holds hholds⟩

end Checks

/-! ## The rules of headers and manifests -/

namespace Header

def IsOfKnownFamily (h : Header) : Prop := ∃ family : Family, h.magic = family.magic

/-- The rules of headers, in the order in which they are checked. -/
def rules (h : Header) : List Rule := [
  ⟨h.IsOfKnownFamily, .headerMagicInvalid⟩,
  ⟨0x800 ≤ h.imageSize.toNat, .imageSizeTooSmall⟩,
  ⟨h.imageSize &&& 0x50000000 = 0, .imageSizeReservedBits⟩,
  ⟨h.rxBase.toNat = (h.roBase.toNat + 1024) % 2 ^ 32, .rxBaseMismatch⟩]

def ObeysRules (h : Header) : Prop := ∀ rule ∈ h.rules, rule.holds

theorem isOfKnownFamily_iff (h : Header) : h.IsOfKnownFamily ↔ h.family?.isSome = true := by
  constructor
  · rintro ⟨family, hmagic⟩
    rw [family?, hmagic, Family.ofMagic?_magic, Option.isSome_some]
  · intro hsome
    obtain ⟨family, hfamily⟩ := Option.isSome_iff_exists.mp hsome
    exact ⟨family, Family.eq_magic_of_ofMagic? hfamily⟩

theorem obeysRules_iff (h : Header) :
    h.ObeysRules ↔ h.IsOfKnownFamily ∧ 0x800 ≤ h.imageSize.toNat ∧
      h.imageSize &&& 0x50000000 = 0 ∧ h.rxBase.toNat = (h.roBase.toNat + 1024) % 2 ^ 32 := by
  simp only [ObeysRules, rules, List.forall_mem_cons, List.not_mem_nil, false_implies,
    implies_true, and_true]

theorem checks (h : Header) : Checks h.rules h.check := by
  unfold check
  apply Checks.cons
  · apply Checks.cons
    · apply Checks.cons
      · apply Checks.cons
        · exact Checks.nil
        · -- the sum wraps around
          rw [ne_eq, not_not, ← UInt32.toNat_inj, UInt32.toNat_add]
          rfl
      · exact not_not.symm
    · exact Nat.not_lt.symm
  · rw [Option.isNone_iff_eq_none, ← Option.not_isSome_iff_eq_none, not_not]
    exact h.isOfKnownFamily_iff

end Header

namespace Manifest

def IsOfKnownKind (m : Manifest) : Prop := m.identifier = 0x4552544f ∨ m.identifier = 0x3042544f

/-- The rules of manifests, in the order in which they are checked. -/
def rules (m : Manifest) : List Rule := [
  ⟨m.IsOfKnownKind, .manifestIdentifierInvalid⟩,
  ⟨m.codeStart ≤ m.codeEnd ∧ m.codeEnd ≤ m.imageSize, .manifestCodeRangeInvalid⟩,
  ⟨m.codeStart ≤ m.entryPoint ∧ m.entryPoint ≤ m.codeEnd, .manifestEntryPointInvalid⟩]

def ObeysRules (m : Manifest) : Prop := ∀ rule ∈ m.rules, rule.holds

theorem isOfKnownKind_iff (m : Manifest) : m.IsOfKnownKind ↔ m.kind?.isSome = true := by
  unfold IsOfKnownKind kind? ManifestKind.ofIdentifier?
  split
  · rename_i h
    simp [h]
  · rename_i h
    split
    · rename_i h'
      simp [h']
    · rename_i h'
      simp [h, h']

theorem obeysRules_iff (m : Manifest) :
    m.ObeysRules ↔ m.IsOfKnownKind ∧ m.codeStart ≤ m.entryPoint ∧ m.entryPoint ≤ m.codeEnd ∧
      m.codeEnd ≤ m.imageSize := by
  simp only [ObeysRules, rules, List.forall_mem_cons, List.not_mem_nil, false_implies,
    implies_true, and_true]
  constructor
  · rintro ⟨hkind, ⟨-, hend⟩, hstart, hentry⟩
    exact ⟨hkind, hstart, hentry, hend⟩
  · rintro ⟨hkind, hstart, hentry, hend⟩
    exact ⟨hkind, ⟨UInt32.le_trans hstart hentry, hend⟩, hstart, hentry⟩

theorem checks (m : Manifest) : Checks m.rules m.check := by
  unfold check
  apply Checks.cons
  · apply Checks.cons
    · apply Checks.cons
      · exact Checks.nil
      · rw [not_or, UInt32.not_lt, UInt32.not_lt, and_comm]
    · -- a code range in order that ends in the image starts there too
      rw [not_or, not_or, UInt32.not_lt, UInt32.not_lt, UInt32.not_lt]
      exact ⟨fun h => ⟨h.1, UInt32.le_trans h.1 h.2, h.2⟩, fun h => ⟨h.1, h.2.2⟩⟩
  · rw [Option.isNone_iff_eq_none, ← Option.not_isSome_iff_eq_none, not_not]
    exact m.isOfKnownKind_iff

end Manifest

/-! ## Windows -/

namespace Candidate

section Windows

variable {window : Bytes} {fault : Fault}

theorem claimsHeader_iff :
    claimsHeader window = true ↔ (Header.decode window).IsOfKnownFamily :=
  (Header.isOfKnownFamily_iff (Header.decode window)).symm

theorem claimsManifest_iff :
    claimsManifest window = true ↔ (Manifest.decode window).IsOfKnownKind :=
  (Manifest.isOfKnownKind_iff (Manifest.decode window)).symm

theorem ofHeaderWindow_of_error (h : (Header.decode window).check = .error fault) :
    ofHeaderWindow window = .error fault := by
  unfold ofHeaderWindow
  dsimp only
  rw [h]
  rfl

theorem ofManifestWindow_of_error (h : (Manifest.decode window).check = .error fault) :
    ofManifestWindow window = .error fault := by
  unfold ofManifestWindow
  dsimp only
  rw [h]
  rfl

theorem ofWindow_of_header (h : (Header.decode window).ObeysRules) :
    ofWindow window = .ok (.header (Header.decode window)) := by
  have hclaims : claimsHeader window = true :=
    claimsHeader_iff.mpr ((Header.obeysRules_iff _).mp h).1
  have hheader : ofHeaderWindow window = .ok (.header (Header.decode window)) :=
    ofHeaderWindow_eq_ok_iff.mpr ⟨(Header.checks _).ok_iff.mpr h, rfl⟩
  unfold ofWindow
  simp only [hclaims, hheader]
  cases claimsManifest window <;> rfl

theorem ofWindow_of_manifest (hheader : ¬(Header.decode window).ObeysRules)
    (h : (Manifest.decode window).ObeysRules) :
    ofWindow window = .ok (.manifest (Manifest.decode window)) := by
  have hclaims : claimsManifest window = true :=
    claimsManifest_iff.mpr ((Manifest.obeysRules_iff _).mp h).1
  have hmanifest : ofManifestWindow window = .ok (.manifest (Manifest.decode window)) :=
    ofManifestWindow_eq_ok_iff.mpr ⟨(Manifest.checks _).ok_iff.mpr h, rfl⟩
  obtain ⟨fault, hfault⟩ := (Header.checks _).exists_error hheader
  unfold ofWindow
  simp only [hclaims, ofHeaderWindow_of_error hfault, hmanifest]
  cases claimsHeader window <;> rfl

/-- Whether a fault is the one for which a window is refused that is neither: the first violation of
the rules of the kind that it claims to be, which is a header if it claims both. -/
inductive Refuses (h : Header) (m : Manifest) : Fault → Prop where
  | header {fault : Fault} (hknown : h.IsOfKnownFamily) (hfirst : FirstViolated h.rules fault) :
    Refuses h m fault
  | manifest {fault : Fault} (hheader : ¬h.IsOfKnownFamily) (hknown : m.IsOfKnownKind)
    (hfirst : FirstViolated m.rules fault) : Refuses h m fault
  | neither (hheader : ¬h.IsOfKnownFamily) (hmanifest : ¬m.IsOfKnownKind) :
    Refuses h m .noImageStructure

theorem Refuses.unique {h : Header} {m : Manifest} {fault' : Fault} (hrefuses : Refuses h m fault)
    (hrefuses' : Refuses h m fault') : fault = fault' := by
  cases hrefuses with
  | header hknown hfirst =>
    cases hrefuses' with
    | header _ hfirst' => exact hfirst.unique hfirst'
    | manifest hheader _ _ => exact absurd hknown hheader
    | neither hheader _ => exact absurd hknown hheader
  | manifest hheader hknown hfirst =>
    cases hrefuses' with
    | header hknown' _ => exact absurd hknown' hheader
    | manifest _ _ hfirst' => exact hfirst.unique hfirst'
    | neither _ hmanifest => exact absurd hknown hmanifest
  | neither hheader hmanifest =>
    cases hrefuses' with
    | header hknown' _ => exact absurd hknown' hheader
    | manifest _ hknown' _ => exact absurd hknown' hmanifest
    | neither _ _ => rfl

-- Where the first rule could be reported as violated, it is known to hold.
theorem Refuses.ne {h : Header} {m : Manifest} (hrefuses : Refuses h m fault) :
    fault ≠ .candidateOutOfBounds ∧ fault ≠ .headerMagicInvalid ∧
      fault ≠ .manifestIdentifierInvalid := by
  cases hrefuses with
  | header hknown hfirst =>
    have hmem := (hfirst.of_holds hknown).mem_map
    simp only [List.map_cons, List.map_nil, List.mem_cons, List.not_mem_nil, or_false] at hmem
    rcases hmem with rfl | rfl | rfl <;> decide
  | manifest _ hknown hfirst =>
    have hmem := (hfirst.of_holds hknown).mem_map
    simp only [List.map_cons, List.map_nil, List.mem_cons, List.not_mem_nil, or_false] at hmem
    rcases hmem with rfl | rfl <;> decide
  | neither _ _ => decide

theorem ofWindow_of_neither (hheader : ¬(Header.decode window).ObeysRules)
    (hmanifest : ¬(Manifest.decode window).ObeysRules) :
    ∃ fault, ofWindow window = .error fault ∧
      Refuses (Header.decode window) (Manifest.decode window) fault := by
  obtain ⟨first, hfirst⟩ := (Header.checks _).exists_error hheader
  obtain ⟨first', hfirst'⟩ := (Manifest.checks _).exists_error hmanifest
  unfold ofWindow
  rw [ofHeaderWindow_of_error hfirst, ofManifestWindow_of_error hfirst']
  by_cases hfamily : (Header.decode window).IsOfKnownFamily
  · refine ⟨first, ?_, .header hfamily (((Header.checks _).error_iff _).mp hfirst)⟩
    rw [claimsHeader_iff.mpr hfamily]
    cases claimsManifest window <;> rfl
  · have hclaims : claimsHeader window = false := by
      rwa [← Bool.not_eq_true, claimsHeader_iff]
    by_cases hkind : (Manifest.decode window).IsOfKnownKind
    · refine ⟨first', ?_, .manifest hfamily hkind (((Manifest.checks _).error_iff _).mp hfirst')⟩
      rw [hclaims, claimsManifest_iff.mpr hkind]
    · have hclaims' : claimsManifest window = false := by
        rwa [← Bool.not_eq_true, claimsManifest_iff]
      refine ⟨.noImageStructure, ?_, .neither hfamily hkind⟩
      rw [hclaims, hclaims']

variable (window) in
/-- A window is a header, or else a manifest, or else refused. -/
theorem ofWindow_cases :
    ((Header.decode window).ObeysRules ∧
      ofWindow window = .ok (.header (Header.decode window))) ∨
    (¬(Header.decode window).ObeysRules ∧ (Manifest.decode window).ObeysRules ∧
      ofWindow window = .ok (.manifest (Manifest.decode window))) ∨
    (¬(Header.decode window).ObeysRules ∧ ¬(Manifest.decode window).ObeysRules ∧
      ∃ fault, ofWindow window = .error fault ∧
        Refuses (Header.decode window) (Manifest.decode window) fault) := by
  by_cases hheader : (Header.decode window).ObeysRules
  · exact Or.inl ⟨hheader, ofWindow_of_header hheader⟩
  · by_cases hmanifest : (Manifest.decode window).ObeysRules
    · exact Or.inr (Or.inl ⟨hheader, hmanifest, ofWindow_of_manifest hheader hmanifest⟩)
    · exact Or.inr (Or.inr ⟨hheader, hmanifest, ofWindow_of_neither hheader hmanifest⟩)

theorem ofWindow_eq_header_iff {h : Header} :
    ofWindow window = .ok (.header h) ↔
      h = Header.decode window ∧ (Header.decode window).ObeysRules := by
  rcases ofWindow_cases window with
    ⟨hheader, hfound⟩ | ⟨hheader, -, hfound⟩ | ⟨hheader, -, fault, hfound, -⟩
  · simp [hfound, hheader, eq_comm]
  · simp [hfound, hheader]
  · simp [hfound, hheader]

theorem ofWindow_eq_manifest_iff {m : Manifest} :
    ofWindow window = .ok (.manifest m) ↔
      m = Manifest.decode window ∧ ¬(Header.decode window).ObeysRules ∧
        (Manifest.decode window).ObeysRules := by
  rcases ofWindow_cases window with
    ⟨hheader, hfound⟩ | ⟨hheader, hmanifest, hfound⟩ | ⟨-, hmanifest, fault, hfound, -⟩
  · simp [hfound, hheader]
  · simp [hfound, hheader, hmanifest, eq_comm]
  · simp [hfound, hmanifest]

theorem ofWindow_eq_error_iff :
    ofWindow window = .error fault ↔
      ¬(Header.decode window).ObeysRules ∧ ¬(Manifest.decode window).ObeysRules ∧
        Refuses (Header.decode window) (Manifest.decode window) fault := by
  rcases ofWindow_cases window with
    ⟨hheader, hfound⟩ | ⟨-, hmanifest, hfound⟩ | ⟨hheader, hmanifest, first, hfound, hrefuses⟩
  · simp [hfound, hheader]
  · simp [hfound, hmanifest]
  · rw [hfound]
    constructor
    · intro herror
      obtain rfl := Except.error.inj herror
      exact ⟨hheader, hmanifest, hrefuses⟩
    · rintro ⟨-, -, hrefuses'⟩
      rw [hrefuses.unique hrefuses']

end Windows

/-! ## Offsets -/

variable {buf : Bytes} {offset : Nat}

theorem parse_of_le (h : offset + structureSize ≤ buf.length) :
    parse buf offset = ofWindow ((buf.drop offset).take structureSize) := by
  rw [parse, ofFront, Bytes.first?_drop_of_le h]

theorem parse_of_lt (h : buf.length < offset + structureSize) :
    parse buf offset = .error .candidateOutOfBounds := by
  rw [parse, ofFront, Bytes.first?_drop_of_lt h (by decide)]

-- Only the bytes of the window are read.
theorem parse_congr {buf' : Bytes} {offset' : Nat}
    (h : (buf'.drop offset').take structureSize = (buf.drop offset).take structureSize) :
    parse buf' offset' = parse buf offset := by
  unfold parse ofFront Bytes.first?
  rw [h]

/-- The structure at an offset of 64 bits, for which the end of the window is formed in 64 bits too.
Where that sum wraps around there is no window. -/
def parseAt (buf : Bytes) (offset : UInt64) : Except Fault Candidate :=
  let stop := offset + 1024
  if stop < offset then .error .candidateOutOfBounds
  else if buf.length < stop.toNat then .error .candidateOutOfBounds
  else ofWindow ((buf.take stop.toNat).drop offset.toNat)

theorem parseAt_eq_parse (hlength : buf.length < 2 ^ 64) (offset : UInt64) :
    parseAt buf offset = parse buf offset.toNat := by
  have hoffset : offset.toNat < 2 ^ 64 := offset.toNat_lt
  have hstop : (offset + 1024).toNat = (offset.toNat + 1024) % 2 ^ 64 := UInt64.toNat_add ..
  unfold parseAt
  by_cases hwraps : offset + 1024 < offset
  · have hpast : buf.length < offset.toNat + structureSize := by
      rw [UInt64.lt_iff_toNat_lt] at hwraps
      unfold structureSize
      omega
    rw [if_pos hwraps, parse_of_lt hpast]
  · rw [UInt64.lt_iff_toNat_lt] at hwraps
    have hsum : (offset + 1024).toNat = offset.toNat + structureSize := by
      unfold structureSize
      omega
    rw [if_neg (by rwa [UInt64.lt_iff_toNat_lt]), hsum]
    by_cases hpast : buf.length < offset.toNat + structureSize
    · rw [if_pos hpast, parse_of_lt hpast]
    · rw [if_neg hpast, parse_of_le (Nat.le_of_not_lt hpast), List.drop_take,
        Nat.add_sub_cancel_left]

end Candidate

/-- What there is at an offset of a buffer: a header if its window obeys the rules of headers, a
manifest if it obeys those of manifests and is no header. All else is refused, for the end of the
buffer or for the rule that is violated first. The window alone decides, and offsets of 64 bits are
no different. -/
theorem candidates_obey_grammar (buf : Bytes) (offset : Nat) :
    let window := (buf.drop offset).take 1024
    let h := Header.decode window
    let m := Manifest.decode window
    let found := Candidate.parse buf offset
    (∀ h', found = .ok (.header h') ↔ offset + 1024 ≤ buf.length ∧ h' = h ∧
      (∃ family : Family, h.magic = family.magic) ∧ 0x800 ≤ h.imageSize.toNat ∧
      h.imageSize &&& 0x50000000 = 0 ∧ h.rxBase.toNat = (h.roBase.toNat + 1024) % 2 ^ 32) ∧
    (∀ m', found = .ok (.manifest m') ↔ offset + 1024 ≤ buf.length ∧ m' = m ∧ ¬h.ObeysRules ∧
      (m.identifier = 0x4552544f ∨ m.identifier = 0x3042544f) ∧
      m.codeStart ≤ m.entryPoint ∧ m.entryPoint ≤ m.codeEnd ∧ m.codeEnd ≤ m.imageSize) ∧
    (found = .error .candidateOutOfBounds ↔ buf.length < offset + 1024) ∧
    (offset + 1024 ≤ buf.length → ∀ fault, found = .error fault ↔
      ¬h.ObeysRules ∧ ¬m.ObeysRules ∧ Candidate.Refuses h m fault) ∧
    found ≠ .error .headerMagicInvalid ∧ found ≠ .error .manifestIdentifierInvalid ∧
    (∀ buf' offset', (buf'.drop offset').take 1024 = window →
      Candidate.parse buf' offset' = found) ∧
    (buf.length < 2 ^ 64 → ∀ place : UInt64, place.toNat = offset →
      Candidate.parseAt buf place = found) := by
  intro window h m found
  have hcongr : ∀ buf' offset', (buf'.drop offset').take 1024 = window →
      Candidate.parse buf' offset' = found := fun _ _ => Candidate.parse_congr
  have hplace : buf.length < 2 ^ 64 → ∀ place : UInt64, place.toNat = offset →
      Candidate.parseAt buf place = found := by
    rintro hlength place rfl
    exact Candidate.parseAt_eq_parse hlength place
  by_cases hpast : buf.length < offset + 1024
  · have hfound : found = .error .candidateOutOfBounds := Candidate.parse_of_lt hpast
    have hno : ¬offset + 1024 ≤ buf.length := Nat.not_le.mpr hpast
    refine ⟨?_, ?_, ⟨fun _ => hpast, fun _ => hfound⟩, fun hfits => absurd hfits hno, ?_, ?_,
      hcongr, hplace⟩
    all_goals simp [hfound, hno]
  · have hfits : offset + 1024 ≤ buf.length := Nat.le_of_not_lt hpast
    have hfound : found = Candidate.ofWindow window := Candidate.parse_of_le hfits
    have herror : ∀ fault, found = .error fault ↔
        ¬h.ObeysRules ∧ ¬m.ObeysRules ∧ Candidate.Refuses h m fault := by
      intro fault
      rw [hfound]
      exact Candidate.ofWindow_eq_error_iff
    refine ⟨fun h' => ?_, fun m' => ?_, ?_, fun _ => herror, fun hmagic => ?_,
      fun hidentifier => ?_, hcongr, hplace⟩
    · rw [hfound, Candidate.ofWindow_eq_header_iff, Header.obeysRules_iff]
      exact (and_iff_right hfits).symm
    · rw [hfound, Candidate.ofWindow_eq_manifest_iff, Manifest.obeysRules_iff]
      exact (and_iff_right hfits).symm
    · exact ⟨fun hbounds => absurd rfl ((herror _).mp hbounds).2.2.ne.1, fun h => absurd h hpast⟩
    · exact absurd rfl ((herror _).mp hmagic).2.2.ne.2.1
    · exact absurd rfl ((herror _).mp hidentifier).2.2.ne.2.2

/-- A header whose executable region starts at the identifier of a manifest. -/
def ambiguousHeader : Header := { Header.decode [] with
  magic := 0xfffffffe
  imageSize := 0x800
  roBase := 0x4552504f
  rxBase := 0x4552544f }

/-- A window that obeys the rules of headers and those of manifests is a header. -/
theorem ambiguous_window_is_header :
    (Manifest.decode ambiguousHeader.encode).ObeysRules ∧
      Candidate.parse ambiguousHeader.encode 0 = .ok (.header ambiguousHeader) := by
  have hlength := ambiguousHeader.length_encode
  have hwindow : (ambiguousHeader.encode.drop 0).take 1024 = ambiguousHeader.encode :=
    List.take_of_length_le hlength.le
  obtain ⟨hheader, -⟩ := candidates_obey_grammar ambiguousHeader.encode 0
  rw [hwindow, Header.decode_encode] at hheader
  constructor
  · rw [Manifest.obeysRules_iff]
    exact ⟨Or.inl (by decide +kernel), by decide +kernel, by decide +kernel, by decide +kernel⟩
  · exact (hheader ambiguousHeader).mpr ⟨hlength.ge, rfl, ⟨.citadel, rfl⟩, by decide, by decide,
      by decide⟩

end SignedFlash
