import SignedFlash.Shape

/-!
# Signed manifests

The manifest at the start of an OpenTitan image.
-/

namespace SignedFlash

-- The signed manifest that an OpenTitan image starts with, 1024 bytes long.
@[ext] structure Manifest where
  signature : Words 96
  selectorBits : Word
  constraintDeviceId : Words 8
  -- The manufacturing state of the silicon creator that the image is for.
  manufStateCreator : Word
  -- The manufacturing state of the silicon owner that the image is for.
  manufStateOwner : Word
  -- The life cycle state that the image is for.
  lifeCycleState : Word
  key : Words 96
  addressTranslation : Word
  identifier : Word
  manifestMajor : UInt16
  manifestMinor : UInt16
  signedRegionEnd : Word
  imageSize : Word
  major : Word
  minor : Word
  securityVersion : Word
  -- When the image was signed, in seconds of the Unix era.
  timestamp : UInt64
  -- The value that binds sealed secrets to the image.
  bindingValue : Words 8
  -- The greatest version of the keys the image may use.
  maxKeyVersion : Word
  codeStart : Word
  codeEnd : Word
  entryPoint : Word
  extensions : Words 30
  deriving DecidableEq

inductive ManifestKind where
  | romExt
  | ownerFirmware
  deriving DecidableEq, Repr

/-- The kind of manifest with the given identifier, which spells `OTRE` or `OTB0` in flash. -/
def ManifestKind.ofIdentifier? (identifier : Word) : Option ManifestKind :=
  if identifier = 0x4552544f then some .romExt
  else if identifier = 0x3042544f then some .ownerFirmware
  else none

namespace Manifest

def kind? (m : Manifest) : Option ManifestKind := ManifestKind.ofIdentifier? m.identifier

/-- The key id as tools show it: the lowest word of the modulus, highest byte last. -/
def keyId (m : Manifest) : Word := Word.swapBytes (m.key.getD 0)

end Manifest

end SignedFlash
