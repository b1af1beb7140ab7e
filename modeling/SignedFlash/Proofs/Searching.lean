import SignedFlash.Proofs.Coverage
import SignedFlash.Proofs.Generated
import SignedFlash.Proofs.Reporting

/-!
# Searches and scans

A search finds the first boundary at which a header or manifest stands. Searching on from behind
each find leads to all of them, in order, and these are the boundaries at which a scan reports on
some structure. It reports on a header even if it passes over the image, because that is cut off.
-/

namespace SignedFlash

/-- Whether a header or manifest stands at a boundary of a buffer, from a start offset on. -/
structure IsCandidateFrom (buf : Bytes) (start offset : Nat) : Prop where
  aligned : alignment ∣ offset
  start_le : start ≤ offset
  lt : offset < buf.length
  parses : ∃ candidate, Candidate.parse buf offset = .ok candidate

theorem isCandidateFrom_iff {buf : Bytes} {start offset : Nat} :
    IsCandidateFrom buf start offset ↔
      offset ∈ boundaries start buf.length ∧ (Candidate.parse buf offset).isOk = true := by
  have hparses : (Candidate.parse buf offset).isOk = true ↔
      ∃ candidate, Candidate.parse buf offset = .ok candidate := by
    cases Candidate.parse buf offset with
    | error fault => exact ⟨nofun, nofun⟩
    | ok candidate => exact ⟨fun _ => ⟨candidate, rfl⟩, fun _ => rfl⟩
  rw [mem_boundaries_iff, hparses]
  exact ⟨fun ⟨h₁, h₂, h₃, h₄⟩ => ⟨⟨h₁, h₂, h₃⟩, h₄⟩, fun ⟨⟨h₁, h₂, h₃⟩, h₄⟩ => ⟨h₁, h₂, h₃, h₄⟩⟩

/-! ## One search -/

section

variable {buf : Bytes} (hlength : buf.length ≤ maxLength)
include hlength

theorem nextCandidate?_eq (start : Nat) :
    nextCandidate? buf start =
      (boundaries start buf.length).find? fun offset => (Candidate.parse buf offset).isOk := by
  rw [nextCandidate?, sites_eq hlength, List.find?_map, Option.map_map]
  exact Option.map_id'

-- What is found is the first candidate.
theorem nextCandidate?_eq_some_iff {start found : Nat} :
    nextCandidate? buf start = some found ↔
      IsLeast {offset | IsCandidateFrom buf start offset} found := by
  rw [nextCandidate?_eq hlength, find?_sorted_eq_some_iff (boundaries_sorted _ _), ← and_assoc,
    ← isCandidateFrom_iff]
  refine and_congr_right fun _ => ?_
  constructor
  · intro hnone offset hoffset
    by_contra hlt
    obtain ⟨hmem, hok⟩ := isCandidateFrom_iff.mp hoffset
    exact Bool.false_ne_true ((hnone offset hmem (by omega)).symm.trans hok)
  · intro hleast offset hmem hlt
    by_contra hok
    have hle := hleast (isCandidateFrom_iff.mpr ⟨hmem, Bool.eq_true_of_not_eq_false hok⟩)
    omega

theorem nextCandidate?_eq_none_iff {start : Nat} :
    nextCandidate? buf start = none ↔ ¬∃ offset, IsCandidateFrom buf start offset := by
  rw [nextCandidate?_eq hlength, List.find?_eq_none]
  simp only [isCandidateFrom_iff]
  exact ⟨fun h ⟨offset, hmem, hok⟩ => h offset hmem hok, fun h offset hmem hok => h ⟨_, hmem, hok⟩⟩

theorem candidates_eq (start : Nat) :
    candidates buf start =
      ((boundaries start buf.length).filter fun offset => (Candidate.parse buf offset).isOk).map
        (Site.of buf) := by
  rw [candidates, sites_eq hlength, List.filter_map]
  rfl

end

/-! ## Searching on -/

/-- The offsets that are found if each search starts behind the find before it. A list stands for
searches that come to an end. -/
inductive Finds (buf : Bytes) : Nat → List Nat → Prop where
  | none {start : Nat} (hnone : nextCandidate? buf start = none) : Finds buf start []
  | next {start found : Nat} {later : List Nat} (hfound : nextCandidate? buf start = some found)
    (hlater : Finds buf (found + 1) later) : Finds buf start (found :: later)

theorem Finds.unique {buf : Bytes} {start : Nat} {found found' : List Nat}
    (h : Finds buf start found) (h' : Finds buf start found') : found' = found := by
  induction h generalizing found' with
  | none hnone =>
    cases h' with
    | none _ => rfl
    | next hfound _ => exact nomatch hnone.symm.trans hfound
  | next hfound _ ih =>
    cases h' with
    | none hnone => exact nomatch hnone.symm.trans hfound
    | next hfound' hlater =>
      obtain rfl := Option.some.inj (hfound'.symm.trans hfound)
      rw [ih hlater]

-- Where the first search starts does not matter as long as it finds the same.
theorem Finds.congr {buf : Bytes} {start start' : Nat} {found : List Nat}
    (h : Finds buf start found) (hfirst : nextCandidate? buf start' = nextCandidate? buf start) :
    Finds buf start' found := by
  cases h with
  | none hnone => exact .none (hfirst.trans hnone)
  | next hfound hlater => exact .next (hfirst.trans hfound) hlater

/-- Searching on leads to all candidates, in order. -/
theorem finds_filter {buf : Bytes} (hlength : buf.length ≤ maxLength) (start : Nat) :
    Finds buf start
      ((boundaries start buf.length).filter fun offset => (Candidate.parse buf offset).isOk) := by
  have hnext := nextCandidate?_eq hlength start
  -- on the boundaries that are left, some of which have no candidate
  generalize hleft : boundaries start buf.length = left at hnext
  induction left generalizing start with
  | nil => exact .none hnext
  | cons first later ih =>
    obtain ⟨-, -, hlater⟩ := boundaries_eq_cons hleft
    have hrest := ih (first + 1) hlater.symm (hlater ▸ nextCandidate?_eq hlength (first + 1))
    cases hok : (Candidate.parse buf first).isOk with
    | true =>
      simp only [List.find?_cons, List.filter_cons, hok] at hnext ⊢
      exact .next hnext hrest
    | false =>
      simp only [List.find?_cons, List.filter_cons, hok] at hnext ⊢
      refine hrest.congr (hnext.trans ?_)
      rw [nextCandidate?_eq hlength, hlater]

/-! ## Kinds of reports -/

namespace Verifier

variable (v : Verifier)

theorem kind_verifySigned (session : Session) (h : Header) (hashes : HashChain)
    (key : PublicKey) (report : Report) (log : List LogLine) :
    (v.verifySigned session h hashes key report log).report.kind = report.kind := by
  unfold verifySigned
  split
  · rfl
  · dsimp only
    split <;> rfl

theorem kind_verifyHashed (session : Session) (h : Header) (hashes : HashChain)
    (report : Report) (log : List LogLine) :
    (v.verifyHashed session h hashes report log).report.kind = report.kind := by
  unfold verifyHashed
  dsimp only
  split
  · split
    · rfl
    · exact v.kind_verifySigned session h hashes _ _ _
  · exact v.kind_verifySigned session h hashes _ _ _

-- Every report on a header is about one, also if the image that it describes is cut off.
theorem kind_verifyHeader (session : Session) (site : Site) (family : Family) (h : Header) :
    (v.verifyHeader session site family h).report.kind = .header family := by
  unfold verifyHeader
  dsimp only
  split
  · rfl
  split
  · rfl
  split
  · split
    · exact v.kind_verifyHashed session h _ _ _
    · rfl
  · exact v.kind_verifyHashed session h _ _ _

/-- Whether a report is of the kind of the structure that stands at an offset. -/
structure FitsKind (buf : Bytes) (offset : Nat) (r : Report) : Prop where
  isOk : (Candidate.parse buf offset).isOk = decide (r.kind ≠ .unknown)
  header : ∀ family, (∃ h, Candidate.parse buf offset = .ok (.header h) ∧
    h.family? = some family) ↔ r.kind = .header family

theorem fitsKind_verifyCandidate (session : Session) (buf : Bytes) (offset : Nat) :
    FitsKind buf offset (v.verifyCandidate session buf offset).report := by
  have hsite : (Site.of buf offset).candidate = Candidate.parse buf offset :=
    Site.candidate_of buf offset
  unfold verifyCandidate verifySite
  rw [hsite]
  cases hparse : Candidate.parse buf offset with
  | error fault =>
    refine ⟨by rw [hparse]; rfl, fun _ => ⟨?_, fun hkind => by cases hkind⟩⟩
    rintro ⟨h, hheader, -⟩
    cases hparse.symm.trans hheader
  | ok candidate =>
    obtain ⟨-, hvalid⟩ := Candidate.parse_eq_ok hparse
    cases candidate with
    | manifest m =>
      obtain ⟨kind, hkind⟩ := Manifest.exists_kind?_of_check hvalid
      simp only [verifyManifest, hkind]
      refine ⟨by rw [hparse]; rfl, fun _ => ⟨?_, fun hkind => by cases hkind⟩⟩
      rintro ⟨h, hheader, -⟩
      cases hparse.symm.trans hheader
    | header h =>
      obtain ⟨family, hfamily⟩ :=
        Option.isSome_iff_exists.mp (Header.check_eq_ok_iff.mp hvalid).1
      have hkind := v.kind_verifyHeader session (Site.of buf offset) family h
      simp only [hfamily]
      refine ⟨by rw [hparse, hkind]; rfl, fun family' => ?_⟩
      rw [hkind, hparse]
      constructor
      · rintro ⟨h', hheader, hfamily'⟩
        cases hheader
        rw [hfamily] at hfamily'
        cases hfamily'
        rfl
      · intro hsame
        cases hsame
        exact ⟨h, rfl, hfamily⟩

-- Every report of a scan is on an offset of the buffer, and of the kind of what stands there.
theorem fitsKind_of_mem_scan {session : Session} {buf : Bytes} {start : Nat} {r : Report}
    (h : r ∈ (v.scan session buf start).reports) : FitsKind buf r.offset r := by
  obtain ⟨current, hreport⟩ := v.exists_verifyCandidate_of_mem_scan h
  have hfits := v.fitsKind_verifyCandidate current buf r.offset
  rwa [← hreport] at hfits

end Verifier

/-- A search finds the first header or manifest from its start on, and nothing only if there is
none. Searching on from behind each find ends, and leads to exactly the offsets of a scan whose
reports are on some structure, in order and each once, whatever the verifier and the session are.
These are also the places that the commands visit. A report is on a header of some family if there
is one. -/
theorem searches_agree_with_scans {buf : Bytes} (hlength : buf.length ≤ maxLength) (start : Nat) :
    (∀ found, nextCandidate? buf start = some found ↔
        IsLeast {offset | IsCandidateFrom buf start offset} found) ∧
      (nextCandidate? buf start = none ↔ ¬∃ offset, IsCandidateFrom buf start offset) ∧
      ∀ (v : Verifier) (session : Session),
        let reports := (v.scan session buf start).reports
        let found := (reports.filter fun r => r.kind ≠ .unknown).map Report.offset
        Finds buf start found ∧ found.Pairwise (· < ·) ∧
          candidates buf start = found.map (Site.of buf) ∧
          ∀ r ∈ reports, ∀ family,
            (∃ h, Candidate.parse buf r.offset = .ok (.header h) ∧ h.family? = some family) ↔
              r.kind = .header family := by
  refine ⟨fun _ => nextCandidate?_eq_some_iff hlength, nextCandidate?_eq_none_iff hlength,
    fun v session => ?_⟩
  intro reports found
  have hfound : found =
      (boundaries start buf.length).filter fun offset => (Candidate.parse buf offset).isOk := by
    rw [← v.offsets_scan session hlength start, List.filter_map]
    exact congrArg _ (List.filter_congr fun r hr => (v.fitsKind_of_mem_scan hr).isOk.symm)
  rw [hfound]
  exact ⟨finds_filter hlength start, (boundaries_sorted _ _).filter _, candidates_eq hlength start,
    fun r hr => (v.fitsKind_of_mem_scan hr).header⟩

/-- Flash that ends behind the header of an image. -/
def cutFlash : Bytes := erasedSector ++ sampleImage.header.encode

theorem length_cutFlash : cutFlash.length = 3072 := by
  rw [cutFlash, List.length_append, Header.length_encode, erasedSector, List.length_replicate]
  rfl

theorem parse_cutFlash : Candidate.parse cutFlash 2048 = .ok (.header sampleImage.header) := by
  have hdrop : cutFlash.drop 2048 = sampleImage.header.encode ++ [] := by
    rw [List.append_nil]
    exact List.drop_left' List.length_replicate
  rw [Candidate.parse, hdrop]
  exact Candidate.ofFront_encode_append (sampleSpec.check_signedHeader _ _ sampleSpec_fits) []

theorem report_cutFlash :
    (sampleVerifier.verifyCandidate sampleSession cutFlash 2048).report =
      .brief 2048 (.header .haven) (.skipped .imageOutOfBounds) := by
  have hcut {h : Header} {hashes : HashChain}
      (himage : sampleVerifier.IsImage cutFlash 2048 h hashes) : False := by
    obtain rfl := Candidate.header.inj (Except.ok.inj (parse_cutFlash.symm.trans himage.header))
    have hwhole := himage.whole
    rw [length_cutFlash, imageSize_sampleImage] at hwhole
    omega
  have hways := sampleVerifier.reports_verifyCandidate sampleSession cutFlash 2048
  generalize (sampleVerifier.verifyCandidate sampleSession cutFlash 2048).report = r at hways
  cases hways with
  | noStructure hnone => exact nomatch parse_cutFlash.symm.trans hnone
  | manifest hmanifest _ => exact nomatch parse_cutFlash.symm.trans hmanifest
  | truncated hheader hfamily _ =>
    obtain rfl := Candidate.header.inj (Except.ok.inj (parse_cutFlash.symm.trans hheader))
    obtain rfl := Option.some.inj (hfamily.symm.trans (show _ = some Family.haven from rfl))
    rfl
  | refused himage _ _ => exact (hcut himage).elim
  | judged hadmitted _ =>
    exact (hcut (Verifier.admitted?_of_eq_some_iff.mp hadmitted).1.toIsImage).elim

-- A scan passes over the image because it is cut off, but a search finds its header.
theorem cut_image_is_found :
    cutFlash.length ≤ maxLength ∧
      (sampleVerifier.scan sampleSession cutFlash 1).reports =
        [.brief 2048 (.header .haven) (.skipped .imageOutOfBounds)] ∧
      Finds cutFlash 1 [2048] := by
  have hlength : cutFlash.length ≤ maxLength := by
    rw [length_cutFlash]
    decide
  have hreports : (sampleVerifier.scan sampleSession cutFlash 1).reports =
      [(sampleVerifier.verifyCandidate sampleSession cutFlash 2048).report] := by
    rw [Verifier.scan, sites_eq hlength, length_cutFlash]
    rfl
  rw [report_cutFlash] at hreports
  obtain ⟨-, -, hscan⟩ := searches_agree_with_scans hlength 1
  obtain ⟨hfinds, -⟩ := hscan sampleVerifier sampleSession
  rw [hreports] at hfinds
  exact ⟨hlength, hreports, hfinds⟩

end SignedFlash
