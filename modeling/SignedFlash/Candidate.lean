import SignedFlash.Fault
import SignedFlash.Header.Layout
import SignedFlash.Manifest.Layout

/-!
# Image candidates

The rules that make 1024 bytes of flash a signed header or a signed manifest. A window that obeys
the rules of a header is a header, whatever else it may be; of the rules violated, the first one is
reported, of the kind of structure that the window claims to be.
-/

namespace SignedFlash

-- The least size of an image that a header can describe.
def minImageSize : Word := 0x800

-- Image size bits that mark a Dauntless cryptolib header, which is no firmware image.
def cryptolibBits : Word := 0x50000000

def Header.check (h : Header) : Except Fault Unit :=
  if h.family?.isNone then .error .headerMagicInvalid
  else if h.imageSize < minImageSize then .error .imageSizeTooSmall
  else if h.imageSize &&& cryptolibBits ≠ 0 then .error .imageSizeReservedBits
  else if h.rxBase ≠ h.roBase + 1024 then .error .rxBaseMismatch
  else .ok ()

def Manifest.check (m : Manifest) : Except Fault Unit :=
  if m.kind?.isNone then .error .manifestIdentifierInvalid
  else if m.codeStart > m.codeEnd ∨ m.codeStart > m.imageSize ∨ m.codeEnd > m.imageSize then
    .error .manifestCodeRangeInvalid
  else if m.entryPoint > m.codeEnd ∨ m.entryPoint < m.codeStart then
    .error .manifestEntryPointInvalid
  else .ok ()

def Header.isValid (h : Header) : Bool := h.check.isOk

def Manifest.isValid (m : Manifest) : Bool := m.check.isOk

-- A structure that obeys every rule of its kind.
inductive Candidate where
  | header (h : Header)
  | manifest (m : Manifest)
  deriving DecidableEq

namespace Candidate

/-- Whether a window of 1024 bytes claims to be a header: it has a magic number of a chip family. -/
def claimsHeader (window : Bytes) : Bool := (Family.ofMagic? (Header.read window .magic)).isSome

/-- Whether a window of 1024 bytes claims to be a manifest: it has an identifier of one. -/
def claimsManifest (window : Bytes) : Bool :=
  (ManifestKind.ofIdentifier? (Manifest.read window .identifier)).isSome

def ofHeaderWindow (window : Bytes) : Except Fault Candidate := do
  let h := Header.decode window
  h.check
  return .header h

def ofManifestWindow (window : Bytes) : Except Fault Candidate := do
  let m := Manifest.decode window
  m.check
  return .manifest m

def ofWindow (window : Bytes) : Except Fault Candidate :=
  match claimsHeader window, claimsManifest window with
  | true, true =>
    match ofHeaderWindow window with
    | .ok candidate => .ok candidate
    | .error fault => (ofManifestWindow window).mapError fun _ => fault
  | true, false => ofHeaderWindow window
  | false, true => ofManifestWindow window
  | false, false => .error .noImageStructure

/-- The structure at the front of a byte string. Nothing is read unless all of it is there. -/
def ofFront (bytes : Bytes) : Except Fault Candidate :=
  match bytes.first? structureSize with
  | none => .error .candidateOutOfBounds
  | some window => ofWindow window

def parse (buf : Bytes) (offset : Nat) : Except Fault Candidate := ofFront (buf.drop offset)

end Candidate

end SignedFlash
