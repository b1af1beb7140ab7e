import SignedFlash.Words

/-!
# SHA-256

The Secure Hash Algorithm with 256-bit digests of FIPS 180-4. A message is padded to whole
64-byte blocks, and each block is mixed into a state of eight words. A digest is handed over as
words read from its bytes lowest first, which is how the boot ROM compares them.
-/

namespace SignedFlash.Sha256

/-- The round constants: the first 32 bits of the fractional parts of the cube roots of the first
64 primes. -/
def roundConstants : List Word := [
  0x428a2f98, 0x71374491, 0xb5c0fbcf, 0xe9b5dba5, 0x3956c25b, 0x59f111f1, 0x923f82a4, 0xab1c5ed5,
  0xd807aa98, 0x12835b01, 0x243185be, 0x550c7dc3, 0x72be5d74, 0x80deb1fe, 0x9bdc06a7, 0xc19bf174,
  0xe49b69c1, 0xefbe4786, 0x0fc19dc6, 0x240ca1cc, 0x2de92c6f, 0x4a7484aa, 0x5cb0a9dc, 0x76f988da,
  0x983e5152, 0xa831c66d, 0xb00327c8, 0xbf597fc7, 0xc6e00bf3, 0xd5a79147, 0x06ca6351, 0x14292967,
  0x27b70a85, 0x2e1b2138, 0x4d2c6dfc, 0x53380d13, 0x650a7354, 0x766a0abb, 0x81c2c92e, 0x92722c85,
  0xa2bfe8a1, 0xa81a664b, 0xc24b8b70, 0xc76c51a3, 0xd192e819, 0xd6990624, 0xf40e3585, 0x106aa070,
  0x19a4c116, 0x1e376c08, 0x2748774c, 0x34b0bcb5, 0x391c0cb3, 0x4ed8aa4a, 0x5b9cca4f, 0x682e6ff3,
  0x748f82ee, 0x78a5636f, 0x84c87814, 0x8cc70208, 0x90befffa, 0xa4506ceb, 0xbef9a3f7, 0xc67178f2]

-- The eight words a digest computation carries from block to block.
structure State where
  a : Word
  b : Word
  c : Word
  d : Word
  e : Word
  f : Word
  g : Word
  h : Word

/-- The state before the first block: the first 32 bits of the fractional parts of the square roots
of the first eight primes. -/
def State.initial : State :=
  ⟨0x6a09e667, 0xbb67ae85, 0x3c6ef372, 0xa54ff53a, 0x510e527f, 0x9b05688c, 0x1f83d9ab, 0x5be0cd19⟩

def State.add (s t : State) : State :=
  ⟨s.a + t.a, s.b + t.b, s.c + t.c, s.d + t.d, s.e + t.e, s.f + t.f, s.g + t.g, s.h + t.h⟩

def State.words (s : State) : List Word := [s.a, s.b, s.c, s.d, s.e, s.f, s.g, s.h]

-- Rotates a word to the right by `n` places, `0 < n < 32`.
def rotateRight (x n : Word) : Word := (x >>> n) ||| (x <<< (32 - n))

-- The sixteen message words a block's remaining schedule depends on.
structure Window where
  w₀ : Word
  w₁ : Word
  w₂ : Word
  w₃ : Word
  w₄ : Word
  w₅ : Word
  w₆ : Word
  w₇ : Word
  w₈ : Word
  w₉ : Word
  w₁₀ : Word
  w₁₁ : Word
  w₁₂ : Word
  w₁₃ : Word
  w₁₄ : Word
  w₁₅ : Word

-- Drops the first message word and appends the next one of the schedule.
def Window.next (v : Window) : Window :=
  let s₀ := rotateRight v.w₁ 7 ^^^ rotateRight v.w₁ 18 ^^^ (v.w₁ >>> 3)
  let s₁ := rotateRight v.w₁₄ 17 ^^^ rotateRight v.w₁₄ 19 ^^^ (v.w₁₄ >>> 10)
  ⟨v.w₁, v.w₂, v.w₃, v.w₄, v.w₅, v.w₆, v.w₇, v.w₈, v.w₉, v.w₁₀, v.w₁₁, v.w₁₂, v.w₁₃, v.w₁₄, v.w₁₅,
    v.w₀ + s₀ + v.w₉ + s₁⟩

-- One round with message word `w` and round constant `k`.
def State.round (s : State) (w k : Word) : State :=
  let s₁ := rotateRight s.e 6 ^^^ rotateRight s.e 11 ^^^ rotateRight s.e 25
  let choice := (s.e &&& s.f) ^^^ (~~~s.e &&& s.g)
  let t₁ := s.h + s₁ + choice + k + w
  let s₀ := rotateRight s.a 2 ^^^ rotateRight s.a 13 ^^^ rotateRight s.a 22
  let majority := (s.a &&& s.b) ^^^ (s.a &&& s.c) ^^^ (s.b &&& s.c)
  ⟨t₁ + (s₀ + majority), s.a, s.b, s.c, s.d + t₁, s.e, s.f, s.g⟩

-- Runs one round per constant, moving the window along the schedule.
def rounds : List Word → Window → State → State
  | [], _, s => s
  | k :: ks, v, s => rounds ks v.next (s.round v.w₀ k)

def State.compress (s : State) (v : Window) : State := s.add (rounds roundConstants v s)

-- The word whose bytes, highest first, are the four given.
def word (b₀ b₁ b₂ b₃ : UInt8) : Word := Word.ofBytes b₃ b₂ b₁ b₀

-- The message words of a byte string, four bytes each, highest first.
def messageWords : Bytes → List Word
  | b₀ :: b₁ :: b₂ :: b₃ :: rest => word b₀ b₁ b₂ b₃ :: messageWords rest
  | _ => []

/-- Mixes the block of 64 bytes at the front of a byte string into the state. -/
def State.compressFront (s : State) (bytes : Bytes) : State :=
  match messageWords (bytes.take 64) with
  | [w₀, w₁, w₂, w₃, w₄, w₅, w₆, w₇, w₈, w₉, w₁₀, w₁₁, w₁₂, w₁₃, w₁₄, w₁₅] =>
    s.compress ⟨w₀, w₁, w₂, w₃, w₄, w₅, w₆, w₇, w₈, w₉, w₁₀, w₁₁, w₁₂, w₁₃, w₁₄, w₁₅⟩
  | _ => s

-- Mixes the first `count` blocks of a byte string into the state.
def blocks : (count : Nat) → State → Bytes → State
  | 0, s, _ => s
  | count + 1, s, bytes => blocks count (s.compressFront bytes) (bytes.drop 64)

-- The eight bytes of a bit count, highest first.
def countBytes (bits : Nat) : Bytes :=
  [56, 48, 40, 32, 24, 16, 8, 0].map fun shift => UInt8.ofNat (bits >>> shift)

/-- What follows a message of the given length: a one bit, zeros up to eight bytes short of a whole
block, and the message's length in bits. -/
def padding (length : Nat) : Bytes :=
  0x80 :: List.replicate ((119 - length % 64) % 64) 0 ++ countBytes (8 * length)

/-- A digest computation under way: the state after the whole blocks of the bytes so far, the bytes
that fill no block yet, and the number of all bytes so far. -/
structure Progress where
  state : State
  pending : Bytes
  length : Nat

namespace Progress

def start : Progress := ⟨State.initial, [], 0⟩

def update (p : Progress) (bytes : Bytes) : Progress :=
  let all := p.pending ++ bytes
  let count := all.length / 64
  ⟨blocks count p.state all, all.drop (64 * count), p.length + bytes.length⟩

def digest (p : Progress) : Digest :=
  let last := p.pending ++ padding p.length
  ⟨(blocks (last.length / 64) p.state last).words.map Word.swapBytes, rfl⟩

end Progress

def digest (message : Bytes) : Digest := (Progress.start.update message).digest

-- The digest of words, each hashed lowest byte first.
def digestWords {n : Nat} (ws : Words n) : Digest := digest ws.bytes

end SignedFlash.Sha256
