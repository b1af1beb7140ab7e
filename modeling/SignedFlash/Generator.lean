import SignedFlash.Candidate
import SignedFlash.Key.Development
import SignedFlash.Otp
import SignedFlash.Rsa.Encoding

/-!
# Generating signed images

Builds the header for a payload, fills in the checksums, and signs the digest of the whole. The
digest and signature algorithms are a parameter. The checksums of fuse and info words lie in the
hashed part of the image and are filled in before it is hashed; the checksum of the image itself
and the signature lie outside.
-/

namespace SignedFlash

structure Crypto where
  sha256 : Bytes → Digest
  -- Signs an encoded message with a modulus and a private exponent, or says why it cannot. The
  -- signature is in Montgomery form.
  sign : (message modulus privateExponent : Number) → Except String Number

structure ImageSpec where
  family : Family
  key : SigningKey
  payload : Bytes
  roBase : Word
  roMax : Word
  rxMax : Word
  epoch : Word
  major : Word
  minor : Word
  timestamp : UInt64
  fuseMap : Words 4
  infoMap : Words 4
  deviceId0 : Word
  deviceId1 : Word
  boardId : BoardId
  productFamily : Word
  config1 : Word
  -- The info bank of the chips the image is for.
  info : Bank

namespace ImageSpec

-- Where the writable section A of a family starts.
def sectionBase : Family → Word
  | .haven | .citadel => 0x44000
  | .dauntless => 0x84000

def imageSize (spec : ImageSpec) : Nat := structureSize + spec.payload.length

-- An image for the writable section A that any chip of a family runs.
def new (family : Family) (key : SigningKey) (payload : Bytes) : ImageSpec where
  family := family
  key := key
  payload := payload
  roBase := sectionBase family
  roMax := sectionBase family + UInt32.ofNat (structureSize + payload.length)
  rxMax := sectionBase family + UInt32.ofNat (structureSize + payload.length)
  epoch := 0
  major := 0
  minor := 0
  timestamp := 0
  fuseMap := .zero 4
  infoMap := .zero 4
  deviceId0 := 0
  deviceId1 := 0
  boardId := ⟨0, 0, 0⟩
  productFamily := 0
  config1 := 0
  info := InfoBank.erased

-- The header of the image, without checksums and signature.
def header (spec : ImageSpec) : Header where
  magic := spec.family.magic
  signature := .zero 96
  imageCheck := 0
  tag := .zero 7
  keyId := spec.key.keyId
  key := spec.key.modulus
  imageSize := UInt32.ofNat spec.imageSize
  roBase := spec.roBase
  roMax := spec.roMax
  rxBase := spec.roBase + 1024
  rxMax := spec.rxMax
  fuseMap := spec.fuseMap
  infoMap := spec.infoMap
  epoch := spec.epoch
  major := spec.major
  minor := spec.minor
  timestamp := spec.timestamp
  p4cl := 0
  applySec := 0
  config1 := spec.config1
  errResponse := 0
  expectResponse := 0
  trailerWords := .replicate 17 paddingWord
  pad := .replicate 5 paddingWord
  swapMark := 0
  storedProductFamily := spec.productFamily ^^^ paddingWord
  storedBoardId := spec.boardId.xorPadding
  deviceId0 := spec.deviceId0
  deviceId1 := spec.deviceId1
  fusesCheck := 0
  infoCheck := 0

end ImageSpec

inductive GenerateError where
  -- The image would be smaller than a header can describe.
  | tooSmall
  -- The image would be larger than a header can describe.
  | tooLarge
  -- The image size uses bits that mark cryptolib headers.
  | reservedBits (size : Nat)
  | signing (reason : String)
  deriving DecidableEq

def GenerateError.message : GenerateError → String
  | .tooSmall => "Image smaller than 2048 bytes"
  | .tooLarge => "Image larger than 4294967295 bytes"
  | .reservedBits size =>
    "Image size " ++ Text.hexNumber size ++ " collides with cryptolib header bits"
  | .signing reason => reason

structure GeneratedImage where
  header : Header
  payload : Bytes
  finalDigest : Digest

namespace GeneratedImage

def bytes (image : GeneratedImage) : Bytes := image.header.encode ++ image.payload

end GeneratedImage

namespace ImageSpec

-- The image's header with all its checksums, and the digest to be signed.
def checkedHeader (spec : ImageSpec) (crypto : Crypto) : Header × Digest :=
  let h := spec.header
  let fuses := crypto.sha256 (FuseBank.sense (FuseBank.ofHeader h) h).bytes
  let info := crypto.sha256 (InfoBank.sense spec.info h).bytes
  let h := { h with fusesCheck := fuses.getD 0, infoCheck := info.getD 0 }
  let image := crypto.sha256 (h.encode.drop Header.hashedFrom ++ spec.payload)
  let final := crypto.sha256 (image.bytes ++ fuses.bytes ++ info.bytes)
  ({ h with imageCheck := image.getD 0 }, final)

def generate (spec : ImageSpec) (crypto : Crypto) : Except GenerateError GeneratedImage :=
  if spec.imageSize < minImageSize.toNat then .error .tooSmall
  else if 0x100000000 ≤ spec.imageSize then .error .tooLarge
  else if UInt32.ofNat spec.imageSize &&& cryptolibBits ≠ 0 then
    .error (.reservedBits spec.imageSize)
  else
    let (h, final) := spec.checkedHeader crypto
    match spec.key.privateExponent with
    | none => .ok ⟨h, spec.payload, final⟩
    | some privateExponent =>
      match crypto.sign (encodeDigest final spec.key.isLegacy) spec.key.modulus privateExponent with
      | .error reason => .error (.signing reason)
      | .ok signature => .ok ⟨{ h with signature := signature }, spec.payload, final⟩

end ImageSpec

end SignedFlash
