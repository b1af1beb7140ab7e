import SignedFlash.Proofs.Checked.Digests
import SignedFlash.Proofs.Checked.Recovery
import SignedFlash.Proofs.Boundaries

/-!
# Checked scans

The verification of a candidate and the loop of a scan, with every index and sum on the way. What a
header says of itself reaches them only through its size, its maps and its key, and none of these is
used as an index before it is known to be one. A scan also goes on behind each candidate: no buffer
is so long that the next boundary would not be found.
-/

namespace SignedFlash

namespace Checked

/-! ## One candidate -/

-- Verifies the signature of an image whose key is known.
def verifySigned (v : Verifier) (session : Session) (h : Header) (hashes : HashChain)
    (key : PublicKey) (report : Report) (log : List LogLine) : Checked Verification :=
  let place := "Image at offset " ++ Text.hexNumber report.offset
  if session.warmUnlock hashes.final then
    return ⟨{ report with unlocked := true, warmBoot := true }, session,
      log ++ [⟨.info, place ++ " is verified (warm boot)"⟩]⟩
  else do
    let check ←
      verifySignature session key h.signature hashes.final v.options.skipHashChecking
    let showBuffer := v.options.debugBuffer || (v.options.verbose && !check.unlocked)
    let report := { report with
      unlocked := check.unlocked
      debugBuffer := if showBuffer then some check.buffer else none }
    let bufferLog : List LogLine :=
      if showBuffer then
        [⟨.debug, "Calculated buf: " ++ Text.hexWords " " check.buffer.toList⟩]
      else []
    if check.unlocked then
      return ⟨report, check.session.recordWarmBoot hashes.final,
        log ++ bufferLog ++ [⟨.info, place ++ " is verified"⟩]⟩
    else
      return ⟨{ report with disposition := .rejected .signatureMismatch }, check.session,
        log ++ bufferLog ++ [⟨.warn, place ++ " contains an invalid signature"⟩]⟩

-- Finds the key of an image whose checksums may stand, and verifies the signature.
def verifyHashed (v : Verifier) (session : Session) (h : Header) (hashes : HashChain)
    (report : Report) (log : List LogLine) : Checked Verification :=
  let offset := Text.hexNumber report.offset
  let resolved := v.keys.resolve h
  let report' := { report with keySource := some resolved.source }
  if resolved.source.isUnverified then
    if v.options.strictKeys then
      return ⟨{ report with disposition := .rejected .keyNotFound }, session,
        log ++ [⟨.warn, "Image at offset " ++ offset ++ " uses unknown key id " ++
          Text.hexWord h.keyId⟩]⟩
    else
      verifySigned v session h hashes resolved.key report'
        (log ++ [⟨.warn, "No known key with id " ++ Text.hexWord h.keyId ++
          ", using the header key for offset " ++ offset⟩])
  else
    verifySigned v session h hashes resolved.key report' log

-- Verifies the image that a valid header at a site describes.
def verifyHeader (v : Verifier) (session : Session) (site : Site) (family : Family) (h : Header) :
    Checked Verification :=
  let kind := ImageKind.header family
  let place := "Image at offset " ++ Text.hexNumber site.offset
  match site.bytes.first? h.imageSize.toNat with
  | none =>
    return ⟨.brief site.offset kind (.skipped .imageOutOfBounds), session,
      [⟨.warn, place ++ " of size " ++ Text.hexNumber h.imageSize.toNat ++
        " runs past the buffer end"⟩]⟩
  | some image => do
    match ← compute v.info h image with
    | .error fault => return ⟨.brief site.offset kind (.skipped fault), session, []⟩
    | .ok hashes =>
      let heads ← heads hashes
      let matched ← checksums hashes h
      let report : Report := { Report.brief site.offset kind .verified with
        hashHeads := some heads
        checksums := matched
        diagnostics := if v.options.verbose then some hashes else none }
      let log ← hashLog hashes matched
      match hashes.check h with
      | .error fault =>
        if v.options.skipHashChecking then verifyHashed v session h hashes report log
        else
          return ⟨{ report with disposition := .rejected fault }, session,
            log ++ [⟨.warn, place ++ " has invalid checksums"⟩]⟩
      | .ok () => verifyHashed v session h hashes report log

def verifySite (v : Verifier) (session : Session) (site : Site) : Checked Verification :=
  match site.candidate with
  | .error fault => return ⟨.skipped site.offset fault, session, []⟩
  | .ok (.manifest m) => return Verifier.verifyManifest session site.offset m
  | .ok (.header h) =>
    match h.family? with
    | none => return ⟨.skipped site.offset .headerMagicInvalid, session, []⟩
    | some family => verifyHeader v session site family h

theorem verifySigned_eq_ok (v : Verifier) (session : Session) (h : Header) (hashes : HashChain)
    (key : PublicKey) (report : Report) (log : List LogLine) :
    verifySigned v session h hashes key report log =
      .ok (v.verifySigned session h hashes key report log) := by
  unfold verifySigned Verifier.verifySigned
  simp only [verifySignature_eq_ok, ok_bind, pure_eq_ok, apply_ite Except.ok]

theorem verifyHashed_eq_ok (v : Verifier) (session : Session) (h : Header) (hashes : HashChain)
    (report : Report) (log : List LogLine) :
    verifyHashed v session h hashes report log =
      .ok (v.verifyHashed session h hashes report log) := by
  unfold verifyHashed Verifier.verifyHashed
  simp only [verifySigned_eq_ok, pure_eq_ok, apply_ite Except.ok]

theorem verifyHeader_eq_ok (v : Verifier) (session : Session) (site : Site) (family : Family)
    (h : Header) :
    verifyHeader v session site family h = .ok (v.verifyHeader session site family h) := by
  unfold verifyHeader Verifier.verifyHeader
  cases site.bytes.first? h.imageSize.toNat with
  | none => rfl
  | some image =>
    dsimp only
    rw [compute_eq_ok, ok_bind]
    cases HashChain.compute v.info h image with
    | error fault => rfl
    | ok hashes =>
      dsimp only
      rw [heads_eq_ok, ok_bind, checksums_eq_ok, ok_bind, hashLog_eq_ok, ok_bind]
      cases hashes.check h with
      | error fault => simp only [verifyHashed_eq_ok, pure_eq_ok, apply_ite Except.ok]
      | ok _ => exact verifyHashed_eq_ok v session h hashes _ _

theorem verifySite_eq_ok (v : Verifier) (session : Session) (site : Site) :
    verifySite v session site = .ok (v.verifySite session site) := by
  unfold verifySite Verifier.verifySite
  cases site.candidate with
  | error fault => rfl
  | ok candidate =>
    cases candidate with
    | manifest m => rfl
    | header h =>
      dsimp only
      cases h.family? with
      | none => rfl
      | some family => exact verifyHeader_eq_ok v session site family h

/-! ## The loop of a scan -/

/-- Verifies the candidates of a buffer from an offset on, each at the next boundary after the one
before. -/
def scanFrom (v : Verifier) (session : Session) (buf : Bytes) (offset : Nat) :
    Checked ScanResult :=
  if offset < buf.length then do
    let first ← verifySite v session (Site.of buf offset)
    let summary : List LogLine :=
      if first.report.isCandidate then [⟨.debug, first.report.describe⟩] else []
    let next := roundUp (← addOffset offset 1)
    if offset < next then
      let rest ← scanFrom v first.session buf next
      return ⟨first.report :: rest.reports, rest.session, first.log ++ summary ++ rest.log⟩
    else
      throw .noProgress
  else
    return ⟨[], session, []⟩
termination_by buf.length - offset

def scan (v : Verifier) (session : Session) (buf : Bytes) (start : Nat) : Checked ScanResult :=
  scanFrom v session buf (roundUp start)

-- In a buffer there is always a next boundary.
theorem lt_roundUp_succ {offset stop : Nat} (hstop : stop ≤ maxLength) (hlt : offset < stop) :
    offset < roundUp (offset + 1) := by
  unfold roundUp alignment maxOffset
  unfold maxLength at hstop
  omega

theorem scanFrom_eq_ok (v : Verifier) (session : Session) {buf : Bytes}
    (hlength : buf.length ≤ maxLength) (offset : Nat) :
    scanFrom v session buf offset =
      .ok (v.verifyAll session (sitesFrom (Site.of buf offset))) := by
  -- on the bytes that are left, of which each round leaves fewer
  generalize hleft : buf.length - offset = left
  induction left using Nat.strong_induction_on generalizing session offset with
  | _ left ih =>
    rw [scanFrom, sitesFrom_of]
    by_cases hend : buf.length ≤ offset
    · rw [if_neg (Nat.not_lt.mpr hend), if_pos hend]
      rfl
    · have hlt : offset < buf.length := Nat.lt_of_not_le hend
      have hnext := lt_roundUp_succ hlength hlt
      have hsum : offset + 1 ≤ maxOffset := by
        have hmax := maxLength_lt_maxOffset
        omega
      rw [if_pos hlt, if_neg hend, if_pos hnext, verifySite_eq_ok, ok_bind, addOffset_of_le hsum,
        ok_bind]
      dsimp only
      rw [if_pos hnext, ih _ (by omega) _ _ rfl, ok_bind]
      rfl

theorem scan_eq_ok (v : Verifier) (session : Session) {buf : Bytes}
    (hlength : buf.length ≤ maxLength) (start : Nat) :
    scan v session buf start = .ok (v.scan session buf start) :=
  scanFrom_eq_ok v session hlength (roundUp start)

end Checked

end SignedFlash
