import SignedFlash.Fault
import SignedFlash.Otp
import SignedFlash.Sha256

/-!
# Digests of an image

What the signature of an image covers: the digest of three digests, of the image from its tag on, of
the sensed fuse words, and of the sensed info words. A header repeats the first word of each of the
three as a checksum.
-/

namespace SignedFlash

@[ext] structure HashChain where
  -- The digest of the hashed part of the image.
  image : Digest
  fuses : Digest
  info : Digest
  final : Digest
  deriving DecidableEq

-- Which checksums of a header agree with the digests.
@[ext] structure ChecksumMatch where
  image : Bool
  fuses : Bool
  info : Bool
  deriving DecidableEq

namespace ChecksumMatch

def none : ChecksumMatch := ⟨false, false, false⟩

/-- The checksums that agree as a number: one for the image, two for the fuses, four for the info
words. -/
def bits (c : ChecksumMatch) : Nat := c.image.toNat + 2 * c.fuses.toNat + 4 * c.info.toNat

end ChecksumMatch

namespace HashChain

def ofDigests (image fuses info : Digest) : HashChain where
  image := image
  fuses := fuses
  info := info
  final := Sha256.digest (image.bytes ++ fuses.bytes ++ info.bytes)

/-- The digests of an image with the given header on a chip with the given info bank. The image must
reach from the header's start to the size that the header states. -/
def compute (info : Bank) (h : Header) (image : Bytes) : Except Fault HashChain :=
  if Header.hashedFrom ≤ h.imageSize.toNat ∧ h.imageSize.toNat ≤ image.length then
    let signed := (image.take h.imageSize.toNat).drop Header.hashedFrom
    .ok <| ofDigests (Sha256.digest signed)
      (Sha256.digestWords (FuseBank.sense (FuseBank.ofHeader h) h))
      (Sha256.digestWords (InfoBank.sense info h))
  else
    .error .imageOutOfBounds

-- Compares the checksums of a header with the first words of the digests.
def checksums (hashes : HashChain) (h : Header) : ChecksumMatch where
  image := h.imageCheck == hashes.image.getD 0
  fuses := h.fusesCheck == hashes.fuses.getD 0
  info := h.infoCheck == hashes.info.getD 0

-- Refuses a header with a wrong checksum: the image's counts first, then the fuses'.
def check (hashes : HashChain) (h : Header) : Except Fault Unit :=
  let matched := hashes.checksums h
  if !matched.image then .error .imageChecksumMismatch
  else if !matched.fuses then .error .fusesChecksumMismatch
  else if !matched.info then .error .infoChecksumMismatch
  else .ok ()

end HashChain

end SignedFlash
