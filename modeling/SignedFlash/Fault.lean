import SignedFlash.Text.Hex

/-!
# Faults

The reasons for which an image, a key or a key table is refused. Every fault has a code, the code
alone decides its class, and the text of a fault shows both.
-/

namespace SignedFlash

inductive FaultClass where
  -- A magic, range or bounds rule is violated: there is no image to verify.
  | structuralInvalid
  -- A checksum in the header disagrees with the digest of what it covers.
  | checksumMismatch
  | keyNotFound
  | signatureMismatch
  -- A key table or a configuration is malformed.
  | config
  -- A key that the arithmetic cannot work with.
  | driver
  deriving DecidableEq, Repr

def FaultClass.name : FaultClass → String
  | .structuralInvalid => "StructuralInvalid"
  | .checksumMismatch => "ChecksumMismatch"
  | .keyNotFound => "KeyNotFound"
  | .signatureMismatch => "SignatureMismatch"
  | .config => "Config"
  | .driver => "Driver"

structure FaultCode where
  value : Word
  value_ne_zero : value ≠ 0
  deriving DecidableEq

namespace FaultCode

-- The code with the given number; `none` for zero.
def ofWord? (w : Word) : Option FaultCode :=
  if h : w ≠ 0 then some ⟨w, h⟩ else none

-- The class of a code, which its upper 24 bits decide.
def faultClass (code : FaultCode) : FaultClass :=
  match (code.value >>> 8).toNat with
  | 0x000100 => .driver
  | 0x000b00 => .structuralInvalid
  | 0x000b01 => .checksumMismatch
  | 0x000b02 => .keyNotFound
  | 0x000b03 => .signatureMismatch
  | _ => .config

-- The text of a code: its number with eight digits and its class.
def message (code : FaultCode) : String :=
  "GSC error " ++ Text.hexWord code.value ++ " (" ++ code.faultClass.name ++ ")"

end FaultCode

inductive Fault where
  | modulusEven
  -- The key id is not the Montgomery inverse of the modulus.
  | inverseMismatch
  -- The public exponent is neither 3 nor 65537.
  | unsupportedExponent
  -- The buffer ends before a whole header or manifest.
  | candidateOutOfBounds
  -- Neither a signed header nor a signed manifest.
  | noImageStructure
  | headerMagicInvalid
  -- The image size is below the least possible.
  | imageSizeTooSmall
  -- The image size uses bits that mark cryptolib headers.
  | imageSizeReservedBits
  -- The executable region does not start right after the header.
  | rxBaseMismatch
  | manifestIdentifierInvalid
  -- The code range is reversed or leaves the image.
  | manifestCodeRangeInvalid
  -- The entry point lies outside the code range.
  | manifestEntryPointInvalid
  | imageOutOfBounds
  | imageChecksumMismatch
  | fusesChecksumMismatch
  | infoChecksumMismatch
  -- The key id is not in the key table.
  | keyNotFound
  | signatureMismatch
  | manifestUnsupported
  -- The key id is already in the key table.
  | duplicateKeyId
  | modulusLength
  deriving DecidableEq, Repr

namespace Fault

def number : Fault → Word
  | .modulusEven => 0x00010001
  | .inverseMismatch => 0x00010002
  | .unsupportedExponent => 0x00010003
  | .candidateOutOfBounds => 0x000b0001
  | .noImageStructure => 0x000b0002
  | .headerMagicInvalid => 0x000b0003
  | .imageSizeTooSmall => 0x000b0004
  | .imageSizeReservedBits => 0x000b0005
  | .rxBaseMismatch => 0x000b0006
  | .manifestIdentifierInvalid => 0x000b0007
  | .manifestCodeRangeInvalid => 0x000b0008
  | .manifestEntryPointInvalid => 0x000b0009
  | .imageOutOfBounds => 0x000b000a
  | .imageChecksumMismatch => 0x000b0101
  | .fusesChecksumMismatch => 0x000b0102
  | .infoChecksumMismatch => 0x000b0103
  | .keyNotFound => 0x000b0201
  | .signatureMismatch => 0x000b0301
  | .manifestUnsupported => 0x000b0302
  | .duplicateKeyId => 0x000c0001
  | .modulusLength => 0x000c0002

def code (fault : Fault) : FaultCode :=
  ⟨fault.number, by cases fault <;> decide⟩

def faultClass (fault : Fault) : FaultClass := fault.code.faultClass

def message (fault : Fault) : String := fault.code.message

end Fault

end SignedFlash
