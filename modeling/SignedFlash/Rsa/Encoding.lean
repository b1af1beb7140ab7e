import SignedFlash.Words

/-!
# The encoding of signed digests

The PKCS #1 v1.5 encoding of a SHA-256 digest: the bytes `00 01 ff … ff 00`, the description of the
digest algorithm, and the digest. The bytes are the number that was signed, highest first.
-/

namespace SignedFlash

-- The description of a SHA-256 digest in the distinguished encoding rules.
def digestInfo : Bytes := [
  0x30, 0x31, 0x30, 0x0d, 0x06, 0x09, 0x60, 0x86, 0x48, 0x01, 0x65, 0x03, 0x04, 0x02, 0x01, 0x05,
  0x00, 0x04, 0x20]

-- The encoded message of the given length in bytes.
def encodedMessage (digest : Digest) (length : Nat) : Bytes :=
  [0x00, 0x01] ++ List.replicate (length - 54) 0xff ++ [0x00] ++ digestInfo ++ digest.bytes

/-- The number that a valid signature of a digest gives: an encoded message of 384 bytes or, for a
legacy key, one of 256 bytes. -/
def encodeDigest (digest : Digest) (legacy : Bool) : Number :=
  let message := encodedMessage digest (if legacy then 256 else 384)
  .ofList 96 (wordsOfBytes message.reverse)

end SignedFlash
