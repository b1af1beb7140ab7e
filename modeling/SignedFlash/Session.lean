import SignedFlash.Rsa.PublicKey
import SignedFlash.Sha256

/-!
# Verification sessions

The state a verifier keeps between images, and the test by which it accepts a signature. A
signature that is raised to the public exponent gives an encoded digest. That is folded: every word
is combined with a constant of its own, and the digest words also with the digest expected, so that
a valid signature always leaves the same 96 words, whatever image and key it is for. The digest of
these words is the sentinel. The words are folded in a random order, which resists fault injection
and changes nothing else.

An image that was accepted once is accepted again without its signature: the session remembers its
final digest, exclusive-or a random value of its own, the ladder.
-/

namespace SignedFlash

-- A source of random words: all that it is going to give.
structure RandomSource where
  word : Nat → Word

namespace RandomSource

-- The source after it gave a number of words.
def skip (source : RandomSource) (count : Nat) : RandomSource :=
  ⟨fun i => source.word (i + count)⟩

/-- A number below `n`, and the source after it. The remainder of a word stands for whatever way a
generator has of drawing the number: every number below `n` can be drawn, and none is ruled out. -/
def below (source : RandomSource) (n : Nat) : Nat × RandomSource :=
  ((source.word 0).toNat % n, source.skip 1)

end RandomSource

-- The digest of the 96 words that every valid signature leaves.
def unlockSentinel : Digest :=
  ⟨[0xe303ec7a, 0x68a03a27, 0xdd18053e, 0x39f8dbbd,
    0x9b553578, 0xb4598244, 0xc59f62d1, 0x61b8509e], rfl⟩

-- What is hashed with random words to make a ladder.
def ladderConstant : Digest :=
  ⟨[0xad2d98d3, 0xa95acac6, 0x0d247c19, 0xb5f0a100,
    0x12044f20, 0xa8c2f5fd, 0x7f9bb2ce, 0xaab9ab98], rfl⟩

structure Session where
  source : RandomSource
  ladder : Digest
  -- The register value of the image accepted last by its signature.
  warmBoot : Option Digest

namespace Session

-- A new session, which makes its ladder from eight random words.
def start (source : RandomSource) : Session where
  source := source.skip 8
  ladder :=
    let seed : Words 8 := ⟨(List.range 8).map source.word, by simp⟩
    Sha256.digest (seed.bytes ++ ladderConstant.bytes)
  warmBoot := none

variable (session : Session)

def unlocked (register : Digest) : Bool :=
  register == unlockSentinel || session.warmBoot == some register

-- The register value of an image with the given final digest.
def warmRegister (final : Digest) : Digest := final.xor session.ladder

-- Whether an image with the given final digest is accepted without its signature.
def warmUnlock (final : Digest) : Bool := session.unlocked (session.warmRegister final)

-- Remembers that the image with the given final digest was accepted.
def recordWarmBoot (final : Digest) : Session :=
  { session with warmBoot := some (session.warmRegister final) }

end Session

/-! ## Folding -/

/-- The places from `0` to `n - 1` in steps of five from `start`, once around. -/
def walk (n start : Nat) : List Nat := (List.range n).map fun k => (start + 5 * k) % n

/-- Turns the encoded digest of a legacy key, which has 64 words, into that of a long key. -/
def liftLegacy (buf : Number) : Number :=
  let copied := buf.modify 95 fun w => w ^^^ buf.getD 63
  let trimmed := copied.modify 63 fun w => w ^^^ 0x1ffff
  trimmed.mapIdx fun i w => if 63 ≤ i ∧ i < 95 then w ^^^ 0xffffffff else w

-- Combines every word with the constant for its place.
def foldPlaces (buf : Number) (start : Nat) : Number :=
  (walk 96 start).foldl (fun b i => b.modify i fun w => w ^^^ (0x1000 + UInt32.ofNat i)) buf

/-- Combines the digest words with the digest expected, or overwrites them if the digest does not
count. -/
def foldDigest (buf : Number) (final : Digest) (skipHash : Bool) (start : Nat) : Number :=
  (walk 8 start).foldl (fun b i =>
    if skipHash then b.set i 0x1010
    else b.modify i fun w =>
      w ^^^ (Word.swapBytes (final.getD (7 - i)) ^^^ (UInt32.ofNat i + 0x10))) buf

namespace Session

variable (session : Session)

-- The folded words that a signature leaves, and the session after it.
def recover (key : PublicKey) (signature : Number) (final : Digest) (skipHash : Bool) :
    Number × Session :=
  let encoded := key.power signature
  let lifted := if key.isLegacy then liftLegacy encoded else encoded
  let (start, source) := session.source.below 96
  let folded := foldPlaces lifted start
  let (start, source) := source.below 8
  (foldDigest folded final skipHash start, { session with source := source })

structure SignatureCheck where
  unlocked : Bool
  buffer : Number
  session : Session

/-- Verifies a signature for a final digest, or, if the digest does not count, for some digest. -/
def verifySignature (key : PublicKey) (signature : Number) (final : Digest) (skipHash : Bool) :
    SignatureCheck :=
  let (buffer, next) := session.recover key signature final skipHash
  ⟨next.unlocked (Sha256.digestWords buffer), buffer, next⟩

end Session

end SignedFlash
