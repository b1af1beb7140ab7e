import SignedFlash.Words
import Mathlib.Data.List.GetD
import Mathlib.Tactic.IntervalCases

/-!
# Words, one by one

A sequence of words is determined by its words, and each operation on sequences is known by what it
does to word `i`. The byte order of a word is reversed by swapping its bytes.
-/

namespace SignedFlash

namespace Word

-- The bits of a word with swapped bytes: the bytes change places, the bits in each do not.
theorem getLsbD_swapBytes (w : Word) {i : Nat} (h : i < 32) :
    (swapBytes w).toBitVec.getLsbD i = w.toBitVec.getLsbD (8 * (3 - i / 8) + i % 8) := by
  simp only [swapBytes, UInt32.toBitVec_or, UInt32.toBitVec_and, UInt32.toBitVec_shiftLeft,
    UInt32.toBitVec_shiftRight, BitVec.getLsbD_or]
  interval_cases i <;> simp

@[simp] theorem swapBytes_swapBytes (w : Word) : swapBytes (swapBytes w) = w := by
  apply UInt32.toBitVec_inj.mp
  apply BitVec.eq_of_getLsbD_eq
  intro i h
  -- byte `i / 8` goes to byte `3 - i / 8`, and from there back
  rw [getLsbD_swapBytes _ h, getLsbD_swapBytes _ (by omega)]
  congr 1
  omega

-- The word of the bytes of a word in the opposite order.
theorem ofBytes_reverse (w : Word) :
    ofBytes (w >>> 24).toUInt8 (w >>> 16).toUInt8 (w >>> 8).toUInt8 w.toUInt8 = swapBytes w := by
  apply UInt32.toBitVec_inj.mp
  apply BitVec.eq_of_getLsbD_eq
  intro i h
  rw [getLsbD_swapBytes _ h]
  simp only [ofBytes, UInt32.toBitVec_or, UInt32.toBitVec_shiftLeft, UInt8.toBitVec_toUInt32,
    UInt32.toBitVec_toUInt8, UInt32.toBitVec_shiftRight, BitVec.getLsbD_or]
  interval_cases i <;> simp

-- A word with one bit.
theorem toNat_one_shiftLeft {i : Nat} (hi : i < 32) :
    ((1 : Word) <<< UInt32.ofNat i).toNat = 2 ^ i := by
  have hpow : 2 ^ i < 2 ^ 32 := Nat.pow_lt_pow_right (by decide) hi
  rw [UInt32.toNat_shiftLeft, UInt32.toNat_ofNat', Nat.mod_eq_of_lt (a := i) (by omega),
    Nat.mod_eq_of_lt hi, show (1 : Word).toNat = 1 from rfl, Nat.one_shiftLeft,
    Nat.mod_eq_of_lt hpow]

theorem testBit_and (v w : Word) (i : Nat) :
    testBit (v &&& w) i = (testBit v i && testBit w i) := by
  rw [testBit, UInt32.toNat_and, Nat.testBit_and]
  rfl

theorem testBit_or (v w : Word) (i : Nat) :
    testBit (v ||| w) i = (testBit v i || testBit w i) := by
  rw [testBit, UInt32.toNat_or, Nat.testBit_or]
  rfl

theorem testBit_xor (v w : Word) (i : Nat) :
    testBit (v ^^^ w) i = (testBit v i ^^ testBit w i) := by
  rw [testBit, UInt32.toNat_xor, Nat.testBit_xor]
  rfl

theorem testBit_not (w : Word) {i : Nat} (hi : i < 32) : testBit (~~~w) i = !testBit w i := by
  show (~~~w).toBitVec.getLsbD i = !w.toBitVec.getLsbD i
  rw [UInt32.toBitVec_not, BitVec.getLsbD_not, decide_eq_true hi, Bool.true_and]

-- Words with the same bits are the same.
theorem ext_testBit {v w : Word} (h : ∀ i < 32, testBit v i = testBit w i) : v = w :=
  UInt32.toBitVec_inj.mp (BitVec.eq_of_getLsbD_eq h)

theorem eq_zero_iff_testBit {w : Word} : w = 0 ↔ ∀ i < 32, testBit w i = false := by
  constructor
  · rintro rfl i -
    exact Nat.zero_testBit i
  · intro h
    apply ext_testBit
    intro i hi
    rw [h i hi]
    exact (Nat.zero_testBit i).symm

-- The bits of one word are among those of another exactly if masking takes none of them away.
theorem and_eq_left_iff_testBit {v w : Word} :
    v &&& w = v ↔ ∀ i < 32, testBit v i = true → testBit w i = true := by
  constructor
  · intro h i _ hv
    rw [← h, testBit_and, Bool.and_eq_true] at hv
    exact hv.2
  · intro h
    apply ext_testBit
    intro i hi
    rw [testBit_and, Bool.and_eq_left_iff_imp]
    exact h i hi

-- Setting one bit leaves the others as they are.
theorem testBit_or_shiftLeft (w : Word) {i : Nat} (hi : i < 32) (j : Nat) :
    testBit (w ||| (1 : Word) <<< UInt32.ofNat i) j = (testBit w j || decide (i = j)) := by
  have hbit : testBit ((1 : Word) <<< UInt32.ofNat i) j = decide (i = j) := by
    rw [testBit, toNat_one_shiftLeft hi, Nat.testBit_two_pow]
  rw [testBit_or, hbit]

end Word

namespace Words

variable {n : Nat}

theorem getD_eq_get (ws : Words n) {i : Nat} (h : i < n) :
    ws.getD i = ws.toList.get ⟨i, by rw [ws.length_toList]; exact h⟩ :=
  List.getD_eq_getElem _ _ _

-- Sequences with the same words are the same.
theorem ext_getD {a b : Words n} (h : ∀ i < n, a.getD i = b.getD i) : a = b := by
  ext1
  apply List.ext_getElem (a.length_toList.trans b.length_toList.symm)
  intro i ha hb
  have hi : i < n := by rwa [a.length_toList] at ha
  have hab := h i hi
  rwa [getD_eq_get a hi, getD_eq_get b hi] at hab

theorem getD_ofList (l : List Word) {i : Nat} (h : i < n) : (ofList n l).getD i = l.getD i 0 := by
  unfold ofList getD
  -- the list may run out before the `n` words do: what is missing is zero
  induction n generalizing l i with
  | zero => omega
  | succ n ih =>
    cases l with
    | nil =>
      cases i with
      | zero => rfl
      | succ i => exact ih [] (by omega)
    | cons w ws =>
      cases i with
      | zero => rfl
      | succ i => exact ih ws (by omega)

theorem getD_modify (ws : Words n) (f : Word → Word) {i j : Nat} (h : j < n) :
    (ws.modify i f).getD j = if i = j then f (ws.getD j) else ws.getD j := by
  rw [getD_eq_get _ h, getD_eq_get _ h]
  exact List.getElem_modify ..

theorem getD_set (ws : Words n) (w : Word) {i j : Nat} (h : j < n) :
    (ws.set i w).getD j = if i = j then w else ws.getD j := by
  rw [getD_eq_get _ h, getD_eq_get _ h]
  exact List.getElem_set ..

theorem getD_mapIdx (f : Nat → Word → Word) (ws : Words n) {i : Nat} (h : i < n) :
    (ws.mapIdx f).getD i = f i (ws.getD i) := by
  rw [getD_eq_get _ h, getD_eq_get _ h]
  exact List.getElem_mapIdx ..

theorem bytes_injective {a b : Words n} (h : a.bytes = b.bytes) : a = b := by
  have hwords := congrArg wordsOfBytes h
  rw [bytes, bytes, wordsOfBytes_bytesOfWords, wordsOfBytes_bytesOfWords] at hwords
  exact Words.ext hwords

-- Mixing in the same words is undone by mixing them in again, so that it loses nothing.
theorem xor_right_injective (c : Words n) {a b : Words n} (h : a.xor c = b.xor c) : a = b := by
  rw [← xor_xor_cancel_right a c, h, xor_xor_cancel_right]

end Words

end SignedFlash
