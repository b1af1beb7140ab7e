import SignedFlash.Manifest.Basic

/-!
# The layout of signed manifests

Where each field of a manifest lies, and the bytes of a manifest.
-/

namespace SignedFlash

namespace Manifest

inductive Field where
  | signature
  | selectorBits
  | constraintDeviceId
  | manufStateCreator
  | manufStateOwner
  | lifeCycleState
  | key
  | addressTranslation
  | identifier
  | manifestMajor
  | manifestMinor
  | signedRegionEnd
  | imageSize
  | major
  | minor
  | securityVersion
  | timestamp
  | bindingValue
  | maxKeyVersion
  | codeStart
  | codeEnd
  | entryPoint
  | extensions
  deriving DecidableEq, Repr

namespace Field

-- The fields in the order in which they are stored.
def all : List Field := [
  .signature, .selectorBits, .constraintDeviceId, .manufStateCreator, .manufStateOwner,
  .lifeCycleState, .key, .addressTranslation, .identifier, .manifestMajor, .manifestMinor,
  .signedRegionEnd, .imageSize, .major, .minor, .securityVersion, .timestamp, .bindingValue,
  .maxKeyVersion, .codeStart, .codeEnd, .entryPoint, .extensions]

def shape : Field → Shape
  | .signature => .words 96
  | .selectorBits => .word
  | .constraintDeviceId => .words 8
  | .manufStateCreator => .word
  | .manufStateOwner => .word
  | .lifeCycleState => .word
  | .key => .words 96
  | .addressTranslation => .word
  | .identifier => .word
  | .manifestMajor => .half
  | .manifestMinor => .half
  | .signedRegionEnd => .word
  | .imageSize => .word
  | .major => .word
  | .minor => .word
  | .securityVersion => .word
  | .timestamp => .double
  | .bindingValue => .words 8
  | .maxKeyVersion => .word
  | .codeStart => .word
  | .codeEnd => .word
  | .entryPoint => .word
  | .extensions => .words 30

def offset : Field → Nat
  | .signature => 0
  | .selectorBits => 384
  | .constraintDeviceId => 388
  | .manufStateCreator => 420
  | .manufStateOwner => 424
  | .lifeCycleState => 428
  | .key => 432
  | .addressTranslation => 816
  | .identifier => 820
  | .manifestMajor => 824
  | .manifestMinor => 826
  | .signedRegionEnd => 828
  | .imageSize => 832
  | .major => 836
  | .minor => 840
  | .securityVersion => 844
  | .timestamp => 848
  | .bindingValue => 856
  | .maxKeyVersion => 888
  | .codeStart => 892
  | .codeEnd => 896
  | .entryPoint => 900
  | .extensions => 904

end Field

def get (x : Manifest) : (field : Field) → field.shape.Value
  | .signature => x.signature
  | .selectorBits => x.selectorBits
  | .constraintDeviceId => x.constraintDeviceId
  | .manufStateCreator => x.manufStateCreator
  | .manufStateOwner => x.manufStateOwner
  | .lifeCycleState => x.lifeCycleState
  | .key => x.key
  | .addressTranslation => x.addressTranslation
  | .identifier => x.identifier
  | .manifestMajor => x.manifestMajor
  | .manifestMinor => x.manifestMinor
  | .signedRegionEnd => x.signedRegionEnd
  | .imageSize => x.imageSize
  | .major => x.major
  | .minor => x.minor
  | .securityVersion => x.securityVersion
  | .timestamp => x.timestamp
  | .bindingValue => x.bindingValue
  | .maxKeyVersion => x.maxKeyVersion
  | .codeStart => x.codeStart
  | .codeEnd => x.codeEnd
  | .entryPoint => x.entryPoint
  | .extensions => x.extensions

def set (x : Manifest) : (field : Field) → field.shape.Value → Manifest
  | .signature, v => { x with signature := v }
  | .selectorBits, v => { x with selectorBits := v }
  | .constraintDeviceId, v => { x with constraintDeviceId := v }
  | .manufStateCreator, v => { x with manufStateCreator := v }
  | .manufStateOwner, v => { x with manufStateOwner := v }
  | .lifeCycleState, v => { x with lifeCycleState := v }
  | .key, v => { x with key := v }
  | .addressTranslation, v => { x with addressTranslation := v }
  | .identifier, v => { x with identifier := v }
  | .manifestMajor, v => { x with manifestMajor := v }
  | .manifestMinor, v => { x with manifestMinor := v }
  | .signedRegionEnd, v => { x with signedRegionEnd := v }
  | .imageSize, v => { x with imageSize := v }
  | .major, v => { x with major := v }
  | .minor, v => { x with minor := v }
  | .securityVersion, v => { x with securityVersion := v }
  | .timestamp, v => { x with timestamp := v }
  | .bindingValue, v => { x with bindingValue := v }
  | .maxKeyVersion, v => { x with maxKeyVersion := v }
  | .codeStart, v => { x with codeStart := v }
  | .codeEnd, v => { x with codeEnd := v }
  | .entryPoint, v => { x with entryPoint := v }
  | .extensions, v => { x with extensions := v }

-- The bytes of a manifest: its fields, one after the other.
def encode (x : Manifest) : Bytes := Field.all.flatMap fun field => field.shape.encode (x.get field)

-- Reads the value of a field from the bytes of a manifest.
def read (bs : Bytes) (field : Field) : field.shape.Value := field.shape.readAt bs field.offset

-- The manifest with the given bytes; bytes that are missing count as zero.
def decode (bs : Bytes) : Manifest where
  signature := read bs .signature
  selectorBits := read bs .selectorBits
  constraintDeviceId := read bs .constraintDeviceId
  manufStateCreator := read bs .manufStateCreator
  manufStateOwner := read bs .manufStateOwner
  lifeCycleState := read bs .lifeCycleState
  key := read bs .key
  addressTranslation := read bs .addressTranslation
  identifier := read bs .identifier
  manifestMajor := read bs .manifestMajor
  manifestMinor := read bs .manifestMinor
  signedRegionEnd := read bs .signedRegionEnd
  imageSize := read bs .imageSize
  major := read bs .major
  minor := read bs .minor
  securityVersion := read bs .securityVersion
  timestamp := read bs .timestamp
  bindingValue := read bs .bindingValue
  maxKeyVersion := read bs .maxKeyVersion
  codeStart := read bs .codeStart
  codeEnd := read bs .codeEnd
  entryPoint := read bs .entryPoint
  extensions := read bs .extensions

end Manifest

end SignedFlash
