import SignedFlash.HashChain
import SignedFlash.Key.Table
import SignedFlash.Manifest.Basic

/-!
# Reports

What verification says about the candidate at an offset.
-/

namespace SignedFlash

-- The kinds of structure that a report can be about.
inductive ImageKind where
  -- Nothing that obeys the rules of an image.
  | unknown
  | header (family : Family)
  | manifest (kind : ManifestKind)
  deriving DecidableEq

def ImageKind.describe : ImageKind → String
  | .unknown => "unknown"
  | .header family => family.name ++ " signed header"
  | .manifest .romExt => "OpenTitan ROM_EXT manifest"
  | .manifest .ownerFirmware => "OpenTitan owner manifest"

inductive Disposition where
  | skipped (fault : Fault)
  -- There is an image, which must not run.
  | rejected (fault : Fault)
  | verified
  deriving DecidableEq

-- The reason for which an image may not run.
def Disposition.fault? : Disposition → Option Fault
  | .skipped fault => some fault
  | .rejected fault => some fault
  | .verified => none

-- The first words of the digests of an image.
@[ext] structure HashHeads where
  image : Word
  fuses : Word
  info : Word
  deriving DecidableEq

def HashChain.heads (hashes : HashChain) : HashHeads :=
  ⟨hashes.image.getD 0, hashes.fuses.getD 0, hashes.info.getD 0⟩

@[ext] structure Report where
  offset : Nat
  kind : ImageKind
  disposition : Disposition
  -- The first words of the digests, once they are known.
  hashHeads : Option HashHeads
  checksums : ChecksumMatch
  -- Whether the signature, or an earlier one, unlocked the image.
  unlocked : Bool
  -- Where the key came from, once it was needed.
  keySource : Option KeySource
  -- Whether the image was accepted without its signature.
  warmBoot : Bool
  diagnostics : Option HashChain
  debugBuffer : Option Number
  deriving DecidableEq

namespace Report

-- A report that says no more than how verification ended.
def brief (offset : Nat) (kind : ImageKind) (disposition : Disposition) : Report where
  offset := offset
  kind := kind
  disposition := disposition
  hashHeads := none
  checksums := .none
  unlocked := false
  keySource := none
  warmBoot := false
  diagnostics := none
  debugBuffer := none

-- The report on an offset where there is no image.
def skipped (offset : Nat) (fault : Fault) : Report := brief offset .unknown (.skipped fault)

def isCandidate (r : Report) : Bool :=
  match r.disposition with
  | .skipped _ => false
  | _ => true

def isVerified (r : Report) : Bool := r.disposition == .verified

-- Whether the image was verified with a key that nothing vouches for.
def hasUnverifiedKey (r : Report) : Bool := r.keySource.any KeySource.isUnverified

def dispositionText (r : Report) : String :=
  match r.disposition with
  | .verified => if r.warmBoot then "verified (warm boot)" else "verified"
  | .rejected fault => "rejected, " ++ fault.message
  | .skipped fault => "skipped, " ++ fault.message

def describe (r : Report) : String :=
  let source := match r.keySource with
    | some source => ", key " ++ source.describe
    | none => ""
  "0x" ++ Text.hex 8 r.offset ++ ": " ++ r.kind.describe ++ ": " ++ r.dispositionText ++ source

end Report

end SignedFlash
