import SignedFlash.Log
import SignedFlash.Report
import SignedFlash.Session
import SignedFlash.Site

/-!
# Verifying a candidate

The decision on the candidate at a site: whether there is an image, whether its checksums agree,
which key it is signed with, and whether the session unlocks it. Each step that fails ends the
verification, and everything learned before stands in the report.
-/

namespace SignedFlash

structure Options where
  -- Ignore wrong checksums, and accept a signature of any digest.
  skipHashChecking : Bool := false
  -- Report the digests, and the folded words of refused images.
  verbose : Bool := false
  debugBuffer : Bool := false
  -- Refuse images whose key is not in the key table.
  strictKeys : Bool := false
  deriving DecidableEq

/-- What a verifier knows of the world: the options, the keys and the chip's info bank. -/
structure Verifier where
  options : Options
  keys : KeyTable
  info : Bank

structure Verification where
  report : Report
  session : Session
  log : List LogLine

namespace Verifier

variable (v : Verifier)

-- The log lines on the digests of an image.
def hashLog (hashes : HashChain) (matched : ChecksumMatch) : List LogLine :=
  let line (label : String) (digest : Digest) (agrees : Bool) : LogLine :=
    ⟨.debug, label ++ " =" ++ Text.hexUpper 8 (digest.getD 0).toNat ++ ".." ++
      Text.hexUpper 8 (digest.getD 7).toNat ++ " : " ++ (if agrees then "true" else "false")⟩
  [line "Himg" hashes.image matched.image, line "Hfss" hashes.fuses matched.fuses,
    line "Hinf" hashes.info matched.info]

-- Verifies the signature of an image whose key is known.
def verifySigned (session : Session) (h : Header) (hashes : HashChain) (key : PublicKey)
    (report : Report) (log : List LogLine) : Verification :=
  let place := "Image at offset " ++ Text.hexNumber report.offset
  if session.warmUnlock hashes.final then
    ⟨{ report with unlocked := true, warmBoot := true }, session,
      log ++ [⟨.info, place ++ " is verified (warm boot)"⟩]⟩
  else
    let check := session.verifySignature key h.signature hashes.final v.options.skipHashChecking
    let showBuffer := v.options.debugBuffer || (v.options.verbose && !check.unlocked)
    let report := { report with
      unlocked := check.unlocked
      debugBuffer := if showBuffer then some check.buffer else none }
    let bufferLog : List LogLine :=
      if showBuffer then
        [⟨.debug, "Calculated buf: " ++ Text.hexWords " " check.buffer.toList⟩]
      else []
    if check.unlocked then
      ⟨report, check.session.recordWarmBoot hashes.final,
        log ++ bufferLog ++ [⟨.info, place ++ " is verified"⟩]⟩
    else
      ⟨{ report with disposition := .rejected .signatureMismatch }, check.session,
        log ++ bufferLog ++ [⟨.warn, place ++ " contains an invalid signature"⟩]⟩

-- Finds the key of an image whose checksums may stand, and verifies the signature.
def verifyHashed (session : Session) (h : Header) (hashes : HashChain) (report : Report)
    (log : List LogLine) : Verification :=
  let offset := Text.hexNumber report.offset
  let resolved := v.keys.resolve h
  if resolved.source.isUnverified then
    if v.options.strictKeys then
      ⟨{ report with disposition := .rejected .keyNotFound }, session,
        log ++ [⟨.warn, "Image at offset " ++ offset ++ " uses unknown key id " ++
          Text.hexWord h.keyId⟩]⟩
    else
      v.verifySigned session h hashes resolved.key { report with keySource := some resolved.source }
        (log ++ [⟨.warn, "No known key with id " ++ Text.hexWord h.keyId ++
          ", using the header key for offset " ++ offset⟩])
  else
    v.verifySigned session h hashes resolved.key { report with keySource := some resolved.source }
      log

-- Verifies the image that a valid header at a site describes.
def verifyHeader (session : Session) (site : Site) (family : Family) (h : Header) :
    Verification :=
  let kind := ImageKind.header family
  let place := "Image at offset " ++ Text.hexNumber site.offset
  match site.bytes.first? h.imageSize.toNat with
  | none =>
    ⟨.brief site.offset kind (.skipped .imageOutOfBounds), session,
      [⟨.warn, place ++ " of size " ++ Text.hexNumber h.imageSize.toNat ++
        " runs past the buffer end"⟩]⟩
  | some image =>
    match HashChain.compute v.info h image with
    | .error fault => ⟨.brief site.offset kind (.skipped fault), session, []⟩
    | .ok hashes =>
      let matched := hashes.checksums h
      let report : Report := { Report.brief site.offset kind .verified with
        hashHeads := some hashes.heads
        checksums := matched
        diagnostics := if v.options.verbose then some hashes else none }
      let log := hashLog hashes matched
      match hashes.check h with
      | .error fault =>
        if v.options.skipHashChecking then v.verifyHashed session h hashes report log
        else
          ⟨{ report with disposition := .rejected fault }, session,
            log ++ [⟨.warn, place ++ " has invalid checksums"⟩]⟩
      | .ok () => v.verifyHashed session h hashes report log

-- The verification of a manifest, whose signature cannot be verified.
def verifyManifest (session : Session) (offset : Nat) (m : Manifest) : Verification :=
  let kind := match m.kind? with
    | some kind => ImageKind.manifest kind
    | none => .unknown
  ⟨.brief offset kind (.rejected .manifestUnsupported), session,
    [⟨.warn, "Manifest at offset " ++ Text.hexNumber offset ++ " cannot be verified"⟩]⟩

def verifySite (session : Session) (site : Site) : Verification :=
  match site.candidate with
  | .error fault => ⟨.skipped site.offset fault, session, []⟩
  | .ok (.manifest m) => verifyManifest session site.offset m
  | .ok (.header h) =>
    match h.family? with
    | none => ⟨.skipped site.offset .headerMagicInvalid, session, []⟩
    | some family => v.verifyHeader session site family h

-- Verifies the candidate at an offset of a buffer.
def verifyCandidate (session : Session) (buf : Bytes) (offset : Nat) : Verification :=
  v.verifySite session (Site.of buf offset)

end Verifier

end SignedFlash
