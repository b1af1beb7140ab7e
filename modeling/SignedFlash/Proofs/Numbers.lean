import SignedFlash.Proofs.Words
import Mathlib.Tactic.Ring

/-!
# Numbers in words

A sequence of words spells a number in base `2 ^ 32`, lowest word first. Leaving out low words
divides the number, keeping them alone takes its remainder, and a number that fits is spelled in one
way only.
-/

namespace SignedFlash

theorem numberOfWords_cons (w : Word) (ws : List Word) :
    numberOfWords (w :: ws) = w.toNat + 2 ^ 32 * numberOfWords ws := rfl

theorem numberOfWords_lt (ws : List Word) : numberOfWords ws < 2 ^ (32 * ws.length) := by
  induction ws with
  | nil => decide
  | cons w ws ih =>
    have hw : w.toNat < 2 ^ 32 := w.toNat_lt
    rw [numberOfWords_cons, List.length_cons, Nat.mul_succ, Nat.pow_add]
    omega

theorem numberOfWords_replicate_zero (n : Nat) : numberOfWords (List.replicate n 0) = 0 := by
  induction n with
  | zero => rfl
  | succ n ih =>
    rw [List.replicate_succ, numberOfWords_cons, ih]
    rfl

-- Bit `i` of a number is bit `i % 32` of its word `i / 32`.
theorem testBit_numberOfWords (ws : List Word) (i : Nat) :
    (numberOfWords ws).testBit i = Word.testBit (ws.getD (i / 32) 0) (i % 32) := by
  induction ws generalizing i with
  | nil =>
    rw [List.getD_nil]
    exact (Nat.zero_testBit i).trans (Nat.zero_testBit _).symm
  | cons w ws ih =>
    rw [numberOfWords_cons, Nat.add_comm, Nat.testBit_two_pow_mul_add _ w.toNat_lt]
    by_cases hi : i < 32
    · rw [if_pos hi, Nat.div_eq_of_lt hi, Nat.mod_eq_of_lt hi]
      rfl
    · have hword : i / 32 = (i - 32) / 32 + 1 := by omega
      have hbit : i % 32 = (i - 32) % 32 := by omega
      rw [if_neg hi, ih, hword, hbit, List.getD_cons_succ]

theorem numberOfWords_append (as bs : List Word) :
    numberOfWords (as ++ bs) = numberOfWords as + 2 ^ (32 * as.length) * numberOfWords bs := by
  induction as with
  | nil => simp [numberOfWords]
  | cons w as ih =>
    rw [List.cons_append, numberOfWords_cons, numberOfWords_cons, ih, List.length_cons,
      Nat.mul_succ, Nat.pow_add]
    ring

theorem numberOfWords_take {ws : List Word} {k : Nat} (h : k ≤ ws.length) :
    numberOfWords (ws.take k) = numberOfWords ws % 2 ^ (32 * k) := by
  have hlength : (ws.take k).length = k := List.length_take_of_le h
  have hlow := numberOfWords_lt (ws.take k)
  have hsplit := numberOfWords_append (ws.take k) (ws.drop k)
  rw [List.take_append_drop] at hsplit
  rw [hlength] at hlow hsplit
  rw [hsplit, Nat.add_mul_mod_self_left, Nat.mod_eq_of_lt hlow]

theorem numberOfWords_drop {ws : List Word} {k : Nat} (h : k ≤ ws.length) :
    numberOfWords (ws.drop k) = numberOfWords ws / 2 ^ (32 * k) := by
  have hlength : (ws.take k).length = k := List.length_take_of_le h
  have hlow := numberOfWords_lt (ws.take k)
  have hsplit := numberOfWords_append (ws.take k) (ws.drop k)
  rw [List.take_append_drop] at hsplit
  rw [hlength] at hlow hsplit
  rw [hsplit, Nat.add_mul_div_left _ _ (Nat.two_pow_pos _), Nat.div_eq_of_lt hlow, Nat.zero_add]

theorem numberOfWords_mod (w : Word) (ws : List Word) :
    numberOfWords (w :: ws) % 2 ^ 32 = w.toNat := by
  rw [numberOfWords_cons, Nat.add_mul_mod_self_left, Nat.mod_eq_of_lt w.toNat_lt]

theorem numberOfWords_injective {as bs : List Word} (hlength : as.length = bs.length)
    (h : numberOfWords as = numberOfWords bs) : as = bs := by
  induction as generalizing bs with
  | nil => exact (List.eq_nil_of_length_eq_zero hlength.symm).symm
  | cons a as ih =>
    cases bs with
    | nil => exact nomatch hlength
    | cons b bs =>
      -- the lowest words are the remainders, and the others spell the quotients
      have hword : a.toNat = b.toNat := by
        rw [← numberOfWords_mod a as, h, numberOfWords_mod]
      rw [numberOfWords_cons, numberOfWords_cons] at h
      rw [UInt32.toNat_inj.mp hword, ih (Nat.succ.inj hlength) (by omega)]

theorem wordsOfNumber_succ (n k : Nat) :
    wordsOfNumber (n + 1) k = UInt32.ofNat k :: wordsOfNumber n (k / 2 ^ 32) := rfl

theorem numberOfWords_wordsOfNumber {n k : Nat} (h : k < 2 ^ (32 * n)) :
    numberOfWords (wordsOfNumber n k) = k := by
  induction n generalizing k with
  | zero => exact (Nat.lt_one_iff.mp h).symm
  | succ n ih =>
    have hhigh : k / 2 ^ 32 < 2 ^ (32 * n) := by
      rw [Nat.mul_succ, Nat.pow_add, Nat.mul_comm] at h
      exact Nat.div_lt_of_lt_mul h
    rw [wordsOfNumber_succ, numberOfWords_cons, ih hhigh, UInt32.toNat_ofNat', Nat.mod_add_div]

namespace Words

variable {n : Nat}

theorem toNat_lt (ws : Words n) : ws.toNat < 2 ^ (32 * n) := by
  have h := numberOfWords_lt ws.toList
  rwa [ws.length_toList] at h

theorem toNat_zero : (zero n).toNat = 0 := numberOfWords_replicate_zero n

theorem toNat_ofNat {k : Nat} (h : k < 2 ^ (32 * n)) : (ofNat n k).toNat = k :=
  numberOfWords_wordsOfNumber h

theorem toNat_injective {a b : Words n} (h : a.toNat = b.toNat) : a = b := by
  ext1
  exact numberOfWords_injective (a.length_toList.trans b.length_toList.symm) h

-- Of a longer list the first words are kept.
theorem toList_ofList_of_le {l : List Word} (h : n ≤ l.length) :
    (ofList n l).toList = l.take n := by
  induction n generalizing l with
  | zero => rfl
  | succ n ih =>
    cases l with
    | nil => exact absurd h (Nat.not_succ_le_zero n)
    | cons w l => exact congrArg (w :: ·) (ih (Nat.le_of_succ_le_succ h))

-- The words of a longer list that are kept spell a remainder.
theorem toNat_ofList {l : List Word} (h : n ≤ l.length) :
    (ofList n l).toNat = numberOfWords l % 2 ^ (32 * n) := by
  rw [toNat, toList_ofList_of_le h, numberOfWords_take h]

end Words

end SignedFlash
