import SignedFlash.Command.Outcome
import SignedFlash.Key.Development
import SignedFlash.Scan
import SignedFlash.Text.Path

/-!
# The command `verify`

Scans a flash image and prints a report on every image found, and how many may run. The
configuration and the command line may each switch an option on.
-/

namespace SignedFlash

structure VerifyRequest where
  image : String
  config : Option String
  -- The options that the command line switches on.
  options : Options
  seed : Option UInt64
  deriving DecidableEq

-- The options that one of two sources switches on.
def Options.or (a b : Options) : Options where
  skipHashChecking := a.skipHashChecking || b.skipHashChecking
  verbose := a.verbose || b.verbose
  debugBuffer := a.debugBuffer || b.debugBuffer
  strictKeys := a.strictKeys || b.strictKeys

/-! ## Loading options and keys -/

-- The reasons for which a key file gives no key.
inductive KeyFileError where
  | unreadable (path : String) (error : FileError)
  -- The file holds no public key in PEM, for a reason that the decoder gives.
  | malformed (path : String) (reason : String)
  | unusable (error : RawKeyError)
  deriving DecidableEq

def KeyFileError.message : KeyFileError → String
  | .unreadable path error =>
    "Failed to read public key PEM file " ++ path ++ ": " ++ error.message
  | .malformed path reason => "Failed to parse public key PEM file " ++ path ++ ": " ++ reason
  | .unusable error => error.message

def readKeyFile (decodePem : PemDecoder) (files : Files) (path : String) :
    Except KeyFileError PublicKey :=
  match files path with
  | .error error => .error (.unreadable path error)
  | .ok pem =>
    match decodePem pem with
    | .error reason => .error (.malformed path reason)
    | .ok raw => raw.toKey.mapError .unusable

/-- Reads the key files that a configuration names, by paths that start in its own folder. -/
def keyFiles (decodePem : PemDecoder) (files : Files) (config : String) : KeyFileReader :=
  fun file => (readKeyFile decodePem files (Text.beside config file)).mapError KeyFileError.message

-- The paths of the key files that a configuration names.
def Settings.keyFilePaths (settings : Settings) (config : String) : List String :=
  settings.keys.filterMap fun key => key.pem.map (Text.beside config)

def loadSettings (files : Files) (path : String) : Except CommandError Settings :=
  match files.text path with
  | .error error => .error (.configUnreadable path error)
  | .ok text =>
    match Settings.parse? text with
    | none => .error (.configMalformed path)
    | some settings => .ok settings

/-- The options and keys of a configuration or, without one, no options and the built-in keys. -/
def loadVerifier (build : Build) (files : Files) (config : Option String) :
    Except CommandError (Options × KeyTable) :=
  match config with
  | none =>
    match KeyTable.builtin build.developmentKeys with
    | .error fault => .error (.builtinKeys fault)
    | .ok keys => .ok ({}, keys)
  | some path => do
    let settings ← loadSettings files path
    match settings.keyTable (keyFiles build.decodePem files path) with
    | .error error => .error (.keyTable error)
    | .ok keys => .ok (settings.verify, keys)

/-! ## Printing reports -/

def checksumMark (agrees : Bool) : String := if agrees then "ok" else "MISMATCH"

-- The line on the first words of the digests.
def headsLine (heads : HashHeads) (matched : ChecksumMatch) : String :=
  "  img " ++ Text.hex 8 heads.image.toNat ++ " " ++ checksumMark matched.image ++
    "  fuses " ++ Text.hex 8 heads.fuses.toNat ++ " " ++ checksumMark matched.fuses ++
    "  info " ++ Text.hex 8 heads.info.toNat ++ " " ++ checksumMark matched.info

def diagnosticLines (hashes : HashChain) : List String := [
  "  Himg   = " ++ Text.hexBytes hashes.image.bytes,
  "  Hfss   = " ++ Text.hexBytes hashes.fuses.bytes,
  "  Hinf   = " ++ Text.hexBytes hashes.info.bytes,
  "  Hfinal = " ++ Text.hexBytes hashes.final.bytes]

-- The lines on the folded words, eight words to a line.
def bufferLines (buffer : Number) : List String :=
  "  Decrypted buffer:" :: (List.range 12).map fun row =>
    "    " ++ Text.hexWords " " (buffer.slice (8 * row) 8).toList

def Report.lines (r : Report) : List String :=
  [r.describe] ++
    (if r.hasUnverifiedKey then ["  warning: signed with a key missing from the key table"]
      else []) ++
    (match r.hashHeads with
      | some heads => [headsLine heads r.checksums]
      | none => []) ++
    (match r.diagnostics with
      | some hashes => diagnosticLines hashes
      | none => []) ++
    (match r.debugBuffer with
      | some buffer => bufferLines buffer
      | none => [])

/-- The lines at the end: how many images were found and how many may run. -/
def summaryLines (path : String) (keys : KeyTable) (found verified : Nat) : List String :=
  [path ++ ": " ++ toString found ++ " image(s) found, " ++ toString verified ++ " verified"] ++
    (if keys.isEmpty && 0 < verified then
      ["No key table given; verified images are only self consistent"]
    else [])

/-! ## Running the command -/

/-- Scans a flash image and prints the reports. The result tells whether some image may run. -/
def verifyImage (source : RandomSource) (path : String) (options : Options) (keys : KeyTable)
    (image : Bytes) : Outcome :=
  let v : Verifier := ⟨options, keys, InfoBank.erased⟩
  let scanned := v.scan (Session.start source) image 0
  let found := scanned.reports.filter Report.isCandidate
  let verified := (found.filter Report.isVerified).length
  let lines := found.flatMap Report.lines ++ summaryLines path keys found.length verified
  ⟨scanned.log, printedLines lines, .ok (0 < verified)⟩

def VerifyRequest.run (request : VerifyRequest) (build : Build) (files : Files)
    (source : RandomSource) : Outcome :=
  withImage files request.image fun image =>
    match loadVerifier build files request.config with
    | .error error => .failure error
    | .ok (options, keys) =>
      verifyImage source request.image (options.or request.options) keys image

end SignedFlash
