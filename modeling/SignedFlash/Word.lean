/-!
# Words and bytes

The 32-bit words that flash images, keys and digests are made of, and their little-endian byte
order in flash.
-/

namespace SignedFlash

abbrev Word := UInt32

abbrev Bytes := List UInt8

namespace Word

def bytes (w : Word) : Bytes :=
  [w.toUInt8, (w >>> 8).toUInt8, (w >>> 16).toUInt8, (w >>> 24).toUInt8]

-- The word whose bytes, lowest first, are the four given.
def ofBytes (b₀ b₁ b₂ b₃ : UInt8) : Word :=
  b₀.toUInt32 ||| (b₁.toUInt32 <<< 8) ||| (b₂.toUInt32 <<< 16) ||| (b₃.toUInt32 <<< 24)

-- The word with its four bytes in the opposite order.
def swapBytes (w : Word) : Word :=
  let low : Word := w &&& 0xff00
  let high : Word := (w >>> 8) &&& 0xff00
  (w <<< 24) ||| (low <<< 8) ||| high ||| (w >>> 24)

-- Whether bit `i` is set; bits from 32 on are not.
def testBit (w : Word) (i : Nat) : Bool := w.toNat.testBit i

end Word

/-- The words stored in a byte string, four bytes each; an incomplete last group is left out. -/
def wordsOfBytes : Bytes → List Word
  | b₀ :: b₁ :: b₂ :: b₃ :: rest => Word.ofBytes b₀ b₁ b₂ b₃ :: wordsOfBytes rest
  | _ => []

-- The bytes of a sequence of words, each lowest byte first.
def bytesOfWords (ws : List Word) : Bytes := ws.flatMap Word.bytes

/-- The number that a sequence of words spells in base `2 ^ 32`, lowest word first. -/
def numberOfWords : List Word → Nat
  | [] => 0
  | w :: ws => w.toNat + 0x100000000 * numberOfWords ws

/-- The `n` low words of a number, lowest first. -/
def wordsOfNumber : (n : Nat) → Nat → List Word
  | 0, _ => []
  | n + 1, k => UInt32.ofNat k :: wordsOfNumber n (k / 0x100000000)

theorem length_wordsOfNumber (n k : Nat) : (wordsOfNumber n k).length = n := by
  induction n generalizing k with
  | zero => rfl
  | succ n ih => rw [wordsOfNumber, List.length_cons, ih]

namespace Word

@[simp] theorem length_bytes (w : Word) : w.bytes.length = 4 := rfl

theorem toNat_ofBytes (b₀ b₁ b₂ b₃ : UInt8) :
    (ofBytes b₀ b₁ b₂ b₃).toNat =
      b₀.toNat + 0x100 * b₁.toNat + 0x10000 * b₂.toNat + 0x1000000 * b₃.toNat := by
  have h₀ : b₀.toNat < 2 ^ 8 := b₀.toNat_lt
  have h₁ : b₁.toNat < 2 ^ 8 := b₁.toNat_lt
  have h₂ : b₂.toNat < 2 ^ 8 := b₂.toNat_lt
  -- bits that do not overlap: their disjunction is their sum
  have join {i low high : Nat} (h : low < 2 ^ i) : low ||| 2 ^ i * high = low + 2 ^ i * high := by
    rw [Nat.or_comm, ← Nat.two_pow_add_eq_or_of_lt h, Nat.add_comm]
  have shifted (b : UInt8) {k : Nat} {s : Word} (hs : s.toNat % 32 = k) (hk : k ≤ 24) :
      (b.toUInt32 <<< s).toNat = 2 ^ k * b.toNat := by
    have hb : b.toNat < 2 ^ 8 := b.toNat_lt
    have hp : 2 ^ k ≤ 2 ^ 24 := Nat.pow_le_pow_right (by decide) hk
    rw [UInt32.toNat_shiftLeft, hs, UInt8.toNat_toUInt32, Nat.shiftLeft_eq, Nat.mul_comm]
    apply Nat.mod_eq_of_lt
    calc 2 ^ k * b.toNat ≤ 2 ^ 24 * b.toNat := Nat.mul_le_mul_right _ hp
      _ < 2 ^ 32 := by omega
  have sum : (ofBytes b₀ b₁ b₂ b₃).toNat =
      b₀.toNat + 2 ^ 8 * b₁.toNat + 2 ^ 16 * b₂.toNat + 2 ^ 24 * b₃.toNat := by
    simp only [ofBytes, UInt32.toNat_or]
    rw [shifted b₁ (k := 8) rfl (by decide), shifted b₂ (k := 16) rfl (by decide),
      shifted b₃ (k := 24) rfl (by decide), UInt8.toNat_toUInt32, join (i := 8) h₀,
      join (i := 16) (by omega), join (i := 24) (by omega)]
  omega

theorem ofBytes_bytes (w : Word) :
    ofBytes w.toUInt8 (w >>> 8).toUInt8 (w >>> 16).toUInt8 (w >>> 24).toUInt8 = w := by
  have h : w.toNat < 2 ^ 32 := w.toNat_lt
  apply UInt32.toNat_inj.mp
  rw [toNat_ofBytes]
  simp only [UInt32.toNat_toUInt8, UInt32.toNat_shiftRight, Nat.shiftRight_eq_div_pow]
  simp
  omega

-- The bytes of a word of bytes are those bytes.
theorem bytes_ofBytes (b₀ b₁ b₂ b₃ : UInt8) : (ofBytes b₀ b₁ b₂ b₃).bytes = [b₀, b₁, b₂, b₃] := by
  have h₀ : b₀.toNat < 2 ^ 8 := b₀.toNat_lt
  have h₁ : b₁.toNat < 2 ^ 8 := b₁.toNat_lt
  have h₂ : b₂.toNat < 2 ^ 8 := b₂.toNat_lt
  have h₃ : b₃.toNat < 2 ^ 8 := b₃.toNat_lt
  have h := toNat_ofBytes b₀ b₁ b₂ b₃
  simp only [bytes, List.cons.injEq, and_true, ← UInt8.toNat_inj, UInt32.toNat_toUInt8,
    UInt32.toNat_shiftRight, Nat.shiftRight_eq_div_pow, h]
  refine ⟨?_, ?_, ?_, ?_⟩ <;> simp <;> omega

end Word

theorem length_bytesOfWords (ws : List Word) : (bytesOfWords ws).length = 4 * ws.length := by
  induction ws with
  | nil => rfl
  | cons w ws ih =>
    simp only [bytesOfWords, List.flatMap_cons, List.length_append, List.length_cons] at ih ⊢
    rw [ih, show w.bytes.length = 4 from rfl]
    omega

theorem wordsOfBytes_bytesOfWords (ws : List Word) : wordsOfBytes (bytesOfWords ws) = ws := by
  induction ws with
  | nil => rfl
  | cons w ws ih =>
    simp only [bytesOfWords, List.flatMap_cons] at ih ⊢
    simp [Word.bytes, wordsOfBytes, Word.ofBytes_bytes, ih]

-- The first `n` bytes of a byte string; `none` if there are fewer.
def Bytes.first? (bytes : Bytes) (n : Nat) : Option Bytes :=
  let part := bytes.take n
  if part.length = n then some part else none

theorem Bytes.first?_eq_some_iff {bytes part : Bytes} {n : Nat} :
    bytes.first? n = some part ↔ n ≤ bytes.length ∧ bytes.take n = part := by
  have h : (bytes.take n).length = n ↔ n ≤ bytes.length := by
    rw [List.length_take]
    omega
  simp only [first?, h]
  by_cases hn : n ≤ bytes.length <;> simp [hn]

theorem Bytes.first?_drop_of_le {buf : Bytes} {offset n : Nat} (h : offset + n ≤ buf.length) :
    Bytes.first? (buf.drop offset) n = some ((buf.drop offset).take n) := by
  rw [Bytes.first?_eq_some_iff, List.length_drop]
  exact ⟨by omega, rfl⟩

theorem Bytes.first?_drop_of_lt {buf : Bytes} {offset n : Nat} (h : buf.length < offset + n)
    (hn : 0 < n) : Bytes.first? (buf.drop offset) n = none := by
  rw [Option.eq_none_iff_forall_ne_some]
  intro part hpart
  obtain ⟨hlength, -⟩ := Bytes.first?_eq_some_iff.mp hpart
  rw [List.length_drop] at hlength
  omega

end SignedFlash
