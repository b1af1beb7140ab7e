import SignedFlash.Shape
import Mathlib.Data.List.Basic
import Mathlib.Tactic.IntervalCases

/-!
# Values and their bytes

A value is read back from its bytes as it was stored, and bytes are stored again as they were read.
They are the digits of a number in base 256, lowest first, whatever the shape of the value.
-/

namespace SignedFlash

/-! ## Bytes of a number -/

/-- The `n` low bytes of a number, lowest first. -/
def littleEndian : (n : Nat) → Nat → Bytes
  | 0, _ => []
  | n + 1, k => UInt8.ofNat k :: littleEndian n (k / 256)

theorem getElem?_littleEndian {n i : Nat} (k : Nat) (h : i < n) :
    (littleEndian n k)[i]? = some (UInt8.ofNat (k / 256 ^ i)) := by
  induction n generalizing i k with
  | zero => exact absurd h (Nat.not_lt_zero i)
  | succ n ih =>
    cases i with
    | zero => rw [littleEndian, List.getElem?_cons_zero, Nat.pow_zero, Nat.div_one]
    | succ i =>
      rw [littleEndian, List.getElem?_cons_succ, ih _ (Nat.lt_of_succ_lt_succ h),
        Nat.div_div_eq_div_mul, Nat.pow_succ']

-- The bytes of a word are the lowest four of every number that has the word at its low end.
theorem littleEndian_word (n : Nat) (w : Word) (k : Nat) :
    littleEndian (n + 4) (w.toNat + 2 ^ 32 * k) = w.bytes ++ littleEndian n k := by
  have hw : w.toNat < 2 ^ 32 := w.toNat_lt
  have hhigh : (w.toNat + 2 ^ 32 * k) / 256 / 256 / 256 / 256 = k := by omega
  have hbytes : w.bytes = [UInt8.ofNat (w.toNat + 2 ^ 32 * k),
      UInt8.ofNat ((w.toNat + 2 ^ 32 * k) / 256), UInt8.ofNat ((w.toNat + 2 ^ 32 * k) / 256 / 256),
      UInt8.ofNat ((w.toNat + 2 ^ 32 * k) / 256 / 256 / 256)] := by
    simp only [Word.bytes, List.cons.injEq, and_true, ← UInt8.toNat_inj, UInt32.toNat_toUInt8,
      UInt32.toNat_shiftRight, Nat.shiftRight_eq_div_pow, UInt8.toNat_ofNat']
    refine ⟨?_, ?_, ?_, ?_⟩ <;> simp <;> omega
  rw [hbytes, littleEndian, littleEndian, littleEndian, littleEndian, hhigh]
  rfl

theorem bytesOfWords_eq_littleEndian (ws : List Word) :
    bytesOfWords ws = littleEndian (4 * ws.length) (numberOfWords ws) := by
  induction ws with
  | nil => rfl
  | cons w ws ih =>
    have hnumber : numberOfWords (w :: ws) = w.toNat + 2 ^ 32 * numberOfWords ws := rfl
    rw [List.length_cons, Nat.mul_succ, hnumber, littleEndian_word, ← ih]
    rfl

theorem bytesOfWords_wordsOfBytes {n : Nat} {bs : Bytes} (h : bs.length = 4 * n) :
    (wordsOfBytes bs).length = n ∧ bytesOfWords (wordsOfBytes bs) = bs := by
  induction n generalizing bs with
  | zero =>
    obtain rfl := List.eq_nil_of_length_eq_zero h
    exact ⟨rfl, rfl⟩
  | succ n ih =>
    match bs, h with
    | b₀ :: b₁ :: b₂ :: b₃ :: rest, h =>
      have hrest : rest.length = 4 * n := by
        simp only [List.length_cons] at h
        omega
      obtain ⟨hlength, hbytes⟩ := ih hrest
      refine ⟨congrArg (· + 1) hlength, ?_⟩
      rw [wordsOfBytes, bytesOfWords, List.flatMap_cons, Word.bytes_ofBytes]
      exact congrArg ([b₀, b₁, b₂, b₃] ++ ·) hbytes

/-! ## Shapes -/

namespace Shape

theorem length_encode (s : Shape) (v : s.Value) : (s.encode v).length = s.size := by
  cases s with
  | words n => exact Words.length_bytes v
  | _ => rfl

theorem decode_encode (s : Shape) (v : s.Value) : s.decode (s.encode v) = v := by
  cases s with
  | half =>
    apply UInt16.toBitVec_inj.mp
    apply BitVec.eq_of_getLsbD_eq
    intro i hi
    simp only [decode, encode, List.getD_cons_zero, List.getD_cons_succ, UInt16.toBitVec_or,
      UInt16.toBitVec_shiftLeft, UInt8.toBitVec_toUInt16, UInt16.toBitVec_toUInt8,
      UInt16.toBitVec_shiftRight, BitVec.getLsbD_or]
    interval_cases i <;> simp
  | word => exact Word.ofBytes_bytes v
  | double =>
    simp only [decode, encode, wordsOfBytes_bytesOfWords, List.getD_cons_zero,
      List.getD_cons_succ]
    apply UInt64.toBitVec_inj.mp
    apply BitVec.eq_of_getLsbD_eq
    intro i hi
    simp only [UInt64.toBitVec_or, UInt64.toBitVec_shiftLeft, UInt32.toBitVec_toUInt64,
      UInt64.toBitVec_toUInt32, UInt64.toBitVec_shiftRight, BitVec.getLsbD_or]
    by_cases h : i < 32
    · simp [h, hi]
    · -- bit `i` is bit `i - 32` of the high word
      have hshift : 32 + (i - 32) = i := by omega
      simp [h, hi, hshift, show i - 32 < 32 by omega]
  | words n =>
    simp only [decode, encode, Words.bytes, wordsOfBytes_bytesOfWords]
    exact Words.ofList_toList v
  | boardId =>
    simp only [decode, encode, wordsOfBytes_bytesOfWords]
    rfl

-- A word is stored again as it was read.
theorem bytes_decode_word : ∀ {part : Bytes}, part.length = 4 → (word.decode part).bytes = part
  | [b₀, b₁, b₂, b₃], _ => Word.bytes_ofBytes b₀ b₁ b₂ b₃

theorem bytes_readAt_word {bs : Bytes} {offset : Nat} (h : offset + 4 ≤ bs.length) :
    (word.readAt bs offset).bytes = (bs.drop offset).take 4 := by
  apply bytes_decode_word
  rw [List.length_take, List.length_drop]
  show min 4 _ = 4
  omega

-- What is read behind a position depends on nothing before it.
theorem readAt_congr (s : Shape) {bs bs' : Bytes} {start offset : Nat}
    (h : bs.drop start = bs'.drop start) (hstart : start ≤ offset) :
    s.readAt bs offset = s.readAt bs' offset := by
  have hdrop (bs : Bytes) : bs.drop offset = (bs.drop start).drop (offset - start) := by
    rw [List.drop_drop]
    congr 1
    omega
  unfold readAt
  rw [hdrop bs, hdrop bs', h]

/-- The number that a stored value spells. The words of a sequence are digits, lowest first. -/
def number : (s : Shape) → s.Value → Nat
  | .half, v => UInt16.toNat v
  | .word, v => UInt32.toNat v
  | .double, v => UInt64.toNat v
  | .words _, v => Words.toNat v
  | .boardId, v => numberOfWords [v.id, v.mask, v.flags]

theorem encode_eq_littleEndian (s : Shape) (v : s.Value) :
    s.encode v = littleEndian s.size (s.number v) := by
  cases s with
  | half =>
    have hhigh : (v >>> 8).toUInt8 = UInt8.ofNat (UInt16.toNat v / 256) := by
      apply UInt8.toNat_inj.mp
      simp [Nat.shiftRight_eq_div_pow]
    exact congrArg (fun high => [UInt16.toUInt8 v, high]) hhigh
  | word =>
    have h := bytesOfWords_eq_littleEndian [v]
    rwa [bytesOfWords, List.flatMap_singleton] at h
  | double =>
    have hnumber : numberOfWords [UInt64.toUInt32 v, (v >>> 32).toUInt32] = UInt64.toNat v := by
      have hv : UInt64.toNat v < 2 ^ 64 := UInt64.toNat_lt v
      simp [numberOfWords, Nat.shiftRight_eq_div_pow]
      omega
    have h := bytesOfWords_eq_littleEndian [UInt64.toUInt32 v, (v >>> 32).toUInt32]
    rwa [hnumber] at h
  | words n =>
    have h := bytesOfWords_eq_littleEndian (Words.toList v)
    rwa [Words.length_toList] at h
  | boardId => exact bytesOfWords_eq_littleEndian _

-- Two halves that do not overlap are found again in their disjunction.
theorem half_parts (low high : UInt8) :
    (low.toUInt16 ||| high.toUInt16 <<< 8).toUInt8 = low ∧
      ((low.toUInt16 ||| high.toUInt16 <<< 8) >>> 8).toUInt8 = high := by
  constructor <;>
    · apply UInt8.toBitVec_inj.mp
      apply BitVec.eq_of_getLsbD_eq
      intro i hi
      interval_cases i <;> simp

theorem double_parts (low high : Word) :
    (low.toUInt64 ||| high.toUInt64 <<< 32).toUInt32 = low ∧
      ((low.toUInt64 ||| high.toUInt64 <<< 32) >>> 32).toUInt32 = high := by
  constructor <;>
    · apply UInt32.toBitVec_inj.mp
      apply BitVec.eq_of_getLsbD_eq
      intro i hi
      interval_cases i <;> simp

-- What is read from as many bytes as a value has is stored again as these bytes.
theorem encode_decode (s : Shape) {part : Bytes} (h : part.length = s.size) :
    s.encode (s.decode part) = part := by
  cases s with
  | half =>
    match part, h with
    | [low, high], _ =>
      obtain ⟨hlow, hhigh⟩ := half_parts low high
      simp only [encode, decode, List.getD_cons_zero, List.getD_cons_succ, hlow, hhigh]
  | word => exact bytes_decode_word h
  | double =>
    obtain ⟨hlength, hbytes⟩ := bytesOfWords_wordsOfBytes (n := 2) h
    obtain ⟨low, high, hws⟩ := List.length_eq_two.mp hlength
    obtain ⟨hlow, hhigh⟩ := double_parts low high
    rw [hws] at hbytes
    simp only [encode, decode, hws, List.getD_cons_zero, List.getD_cons_succ, hlow, hhigh, hbytes]
  | words n =>
    obtain ⟨hlength, hbytes⟩ := bytesOfWords_wordsOfBytes h
    rw [encode, decode, Words.bytes, Words.toList_ofList hlength, hbytes]
  | boardId =>
    obtain ⟨hlength, hbytes⟩ := bytesOfWords_wordsOfBytes (n := 3) h
    obtain ⟨id, mask, flags, hws⟩ := List.length_eq_three.mp hlength
    rw [hws] at hbytes
    simp only [encode, decode, hws, List.getD_cons_zero, List.getD_cons_succ, hbytes]

section Sequences

variable {Field : Type} (shape : Field → Shape) (value : (f : Field) → (shape f).Value)

theorem length_flatMap_encode (fields : List Field) :
    (fields.flatMap fun f => (shape f).encode (value f)).length =
      (fields.map fun f => (shape f).size).sum := by
  rw [List.length_flatMap]
  congr 1
  exact List.map_congr_left fun f _ => length_encode _ _

/-- A field of a sequence is read back at the offset where the fields before it end. -/
theorem readAt_flatMap_encode (before after : List Field) (f : Field) (rest : Bytes) :
    (shape f).readAt
        ((before ++ f :: after).flatMap (fun f => (shape f).encode (value f)) ++ rest)
        (before.map fun f => (shape f).size).sum = value f := by
  unfold readAt
  rw [← length_flatMap_encode shape value before, List.flatMap_append, List.flatMap_cons,
    List.append_assoc, List.drop_left, List.append_assoc, ← length_encode (shape f) (value f),
    List.take_left, decode_encode]

end Sequences

end Shape

end SignedFlash
