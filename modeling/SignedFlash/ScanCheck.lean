import SignedFlash.Scan

/-!
# Checking scans of arbitrary bytes

Scans any byte string without known keys and checks what must hold of every report. The first byte
selects the options, the rest is flash.
-/

namespace SignedFlash

-- What must hold of the reports of a scan.
inductive ScanProperty where
  -- There is one report for each boundary in the flash.
  | reportCount
  | reportOffset
  -- A header or manifest that was found lies in the flash.
  | candidateBounds
  -- Nothing is verified by its signature if only known keys count.
  | strictKeys
  deriving DecidableEq, Repr

namespace ScanCheck

-- The options that the bits of a byte select.
def optionsOf (bits : UInt8) : Options where
  skipHashChecking := bits.toNat.testBit 0
  verbose := bits.toNat.testBit 1
  debugBuffer := bits.toNat.testBit 2
  strictKeys := bits.toNat.testBit 3

def violated? (options : Options) (flash : Bytes) (i : Nat) (r : Report) : Option ScanProperty :=
  if r.offset ≠ i * alignment then some .reportOffset
  else if r.isCandidate && flash.length < r.offset + structureSize then some .candidateBounds
  else if options.strictKeys && r.isVerified && !r.warmBoot then some .strictKeys
  else none

def firstViolation? (options : Options) (flash : Bytes) (reports : List Report) :
    Option ScanProperty :=
  if reports.length ≠ (flash.length + (alignment - 1)) / alignment then some .reportCount
  else (reports.mapIdx (violated? options flash)).findSome? id

structure Verdict where
  violation : Option ScanProperty
  log : List LogLine

/-- Scans the flash in a byte string and checks the reports. The empty string holds no flash. -/
def run (source : RandomSource) : Bytes → Verdict
  | [] => ⟨none, []⟩
  | bits :: flash =>
    let options := optionsOf bits
    let v : Verifier := ⟨options, KeyTable.empty, InfoBank.erased⟩
    let result := v.scan (Session.start source) flash 0
    ⟨firstViolation? options flash result.reports, result.log⟩

end ScanCheck

end SignedFlash
