import SignedFlash.Proofs.Powers
import Mathlib.Algebra.Order.Ring.Nat
import Mathlib.Logic.Function.Iterate

/-!
# Key ids

A key id is minus one divided by the lowest word of the modulus. The inverse of that word is found
by refinement, which squares the amount by which the product misses one: the number of low bits that
are right doubles. One is an inverse of any odd word in the lowest bit, and five refinements of it
lead to all 32 bits. No other word makes minus one with the modulus, so the rules of keys leave one
key id to an odd modulus, and the key id tells the lowest word of the modulus in turn.
-/

namespace SignedFlash

namespace Word

variable {k r : Nat} {n v w x : Word}

/-- Whether `x` is an inverse of `n` in the low `k` bits: the product of the two misses one by a
multiple of `2 ^ k`. -/
def IsInverse (k : Nat) (n x : Word) : Prop := 2 ^ k ∣ (1 - n * x).toNat

instance : Decidable (IsInverse k n x) := inferInstanceAs (Decidable (_ ∣ _))

-- What the product misses one by is squared.
theorem one_sub_mul_refineInverse (n x : Word) :
    1 - n * refineInverse n x = (1 - n * x) * (1 - n * x) := by
  unfold refineInverse
  grind

-- One is an inverse of an odd word in the lowest bit.
theorem isInverse_one (hodd : Odd n.toNat) : IsInverse 1 n 1 := by
  obtain ⟨j, hj⟩ := hodd
  have hlt : n.toNat < 2 ^ 32 := n.toNat_lt
  rw [IsInverse, UInt32.mul_one, UInt32.toNat_sub, UInt32.toNat_one]
  omega

/-- A refinement makes an inverse right in twice as many bits, as far as words have bits. -/
theorem IsInverse.refine (h : IsInverse k n x) (hk : 2 * k ≤ 32) :
    IsInverse (2 * k) n (refineInverse n x) := by
  have hword : 2 ^ (2 * k) ∣ 2 ^ 32 := Nat.pow_dvd_pow 2 hk
  have hsquare : 2 ^ (2 * k) ∣ (1 - n * x).toNat * (1 - n * x).toNat := by
    rw [Nat.two_mul, Nat.pow_add]
    exact Nat.mul_dvd_mul h h
  rw [IsInverse, one_sub_mul_refineInverse, UInt32.toNat_mul]
  exact (Nat.dvd_mod_iff hword).mpr hsquare

/-- After `r` refinements an inverse is right in `2 ^ r` bits. -/
theorem isInverse_iterate (hodd : Odd n.toNat) (hr : r ≤ 5) :
    IsInverse (2 ^ r) n ((refineInverse n)^[r] 1) := by
  induction r with
  | zero => exact isInverse_one hodd
  | succ r ih =>
    have hbits : 2 ^ (r + 1) ≤ 2 ^ 5 := Nat.pow_le_pow_right (by decide) hr
    rw [Nat.pow_succ'] at hbits
    rw [Function.iterate_succ_apply', Nat.pow_succ']
    exact (ih (Nat.le_of_succ_le hr)).refine hbits

-- Four refinements are not enough: that of three is then wrong in bit 16.
example : ¬ IsInverse 17 3 ((refineInverse 3)^[4] 1) := by decide

-- An inverse in all bits is one.
theorem IsInverse.mul_eq_one (h : IsInverse 32 n x) : n * x = 1 := by
  have hzero : (1 - n * x).toNat = 0 := Nat.eq_zero_of_dvd_of_lt h (1 - n * x).toNat_lt
  have hmiss : 1 - n * x = 0 := UInt32.toNat_inj.mp hzero
  grind

theorem montgomeryInverse_mul (hodd : Odd n.toNat) : montgomeryInverse n * n = 0xffffffff := by
  have hinverse : n * (refineInverse n)^[5] 1 = 1 :=
    (isInverse_iterate hodd (Nat.le_refl 5)).mul_eq_one
  show (0 - (refineInverse n)^[5] 1) * n = 0xffffffff
  rw [UInt32.zero_sub, UInt32.neg_mul, UInt32.mul_comm, hinverse]
  rfl

-- Only odd words have a multiple that is minus one.
theorem odd_of_mul_eq (h : w * n = 0xffffffff) : Odd n.toNat := by
  have hproduct : w.toNat * n.toNat % 2 ^ 32 = 2 ^ 32 - 1 := by
    rw [← UInt32.toNat_mul, h]
    rfl
  have hodd : Odd (w.toNat * n.toNat) := by
    rw [Nat.odd_iff]
    omega
  exact (Nat.odd_mul.mp hodd).2

-- Two words that make minus one with a third are the same.
theorem eq_of_mul_eq (hv : v * n = 0xffffffff) (hw : w * n = 0xffffffff) : v = w := by
  calc v
    _ = 0 - v * (w * n) := by rw [hw]; grind
    _ = 0 - w * (v * n) := by grind
    _ = w := by rw [hv]; grind

/-- Minus one is a multiple of odd words alone, and of each it is one multiple. -/
theorem mul_eq_iff : w * n = 0xffffffff ↔ Odd n.toNat ∧ w = montgomeryInverse n := by
  constructor
  · intro h
    have hodd := odd_of_mul_eq h
    exact ⟨hodd, eq_of_mul_eq h (montgomeryInverse_mul hodd)⟩
  · rintro ⟨hodd, rfl⟩
    exact montgomeryInverse_mul hodd

-- The product of words read as one of numbers.
theorem mul_eq_iff_dvd : w * n = 0xffffffff ↔ 2 ^ 32 ∣ w.toNat * n.toNat + 1 := by
  rw [← UInt32.toNat_inj, UInt32.toNat_mul]
  show w.toNat * n.toNat % 2 ^ 32 = 2 ^ 32 - 1 ↔ _
  omega

end Word

namespace PublicKey

variable {keyId : Word} {modulus : Number} {exponent : Exponent}

/-- A key is made of an odd modulus and the one key id that belongs to it. -/
theorem new_eq_ok_iff_montgomeryInverse {key : PublicKey} :
    new keyId modulus exponent = .ok key ↔
      Odd (modulus.getD 0).toNat ∧ keyId = montgomeryInverse (modulus.getD 0) ∧
        key = ⟨keyId, modulus, exponent⟩ := by
  rw [new_eq_ok_iff, ← Word.odd_toNat_iff, Word.mul_eq_iff]
  tauto

/-- An even modulus is reported before the key id is looked at. -/
theorem new_eq_error_iff {fault : Fault} :
    new keyId modulus exponent = .error fault ↔
      (Even modulus.toNat ∧ fault = .modulusEven) ∨
      (Odd modulus.toNat ∧ keyId ≠ montgomeryInverse (modulus.getD 0) ∧
        fault = .inverseMismatch) := by
  by_cases hodd : Odd modulus.toNat
  · have hbit : modulus.getD 0 &&& 1 ≠ 0 := Words.odd_toNat_iff.mp hodd
    have hlowest : Odd (modulus.getD 0).toNat := Words.odd_toNat_iff_odd_lowest.mp hodd
    have hproduct : keyId * modulus.getD 0 = 0xffffffff ↔
        keyId = montgomeryInverse (modulus.getD 0) := by
      rw [Word.mul_eq_iff, and_iff_right hlowest]
    rw [new, if_neg hbit]
    by_cases hkeyId : keyId = montgomeryInverse (modulus.getD 0)
    · rw [if_neg (not_not.mpr (hproduct.mpr hkeyId))]
      simp [hkeyId, hodd]
    · rw [if_pos (hproduct.not.mpr hkeyId)]
      simp [hkeyId, hodd, eq_comm]
  · have hbit : modulus.getD 0 &&& 1 = 0 := not_not.mp (Words.odd_toNat_iff.not.mp hodd)
    rw [new, if_pos hbit]
    simp [hodd, Nat.not_odd_iff_even.mp hodd, eq_comm]

/-- The key ids of valid keys are as different as the lowest words of their moduli. -/
theorem keyId_eq_iff {a b : PublicKey} (ha : new a.keyId a.modulus a.exponent = .ok a)
    (hb : new b.keyId b.modulus b.exponent = .ok b) :
    a.keyId = b.keyId ↔ a.modulus.getD 0 = b.modulus.getD 0 := by
  obtain ⟨-, hinverse, -⟩ := new_eq_ok_iff.mp ha
  obtain ⟨-, hinverse', -⟩ := new_eq_ok_iff.mp hb
  constructor
  · intro hsame
    -- the lowest words make minus one with the key id as it does with them
    rw [UInt32.mul_comm] at hinverse hinverse'
    rw [← hsame] at hinverse'
    exact Word.eq_of_mul_eq hinverse hinverse'
  · intro hsame
    rw [← hsame] at hinverse'
    exact Word.eq_of_mul_eq hinverse hinverse'

end PublicKey

/-- The Montgomery inverse of an odd word is the one word that makes minus one with it. So the words
of a key are accepted exactly if the modulus is odd and the key id is the Montgomery inverse of its
lowest word. Other words are refused, for an even modulus or else for the key id, and the keys that
are accepted share a key id exactly if they share the lowest word of the modulus. -/
theorem key_ids_are_inverses :
    (∀ n : Word, Odd n.toNat →
      ∀ w : Word, 2 ^ 32 ∣ w.toNat * n.toNat + 1 ↔ w = montgomeryInverse n) ∧
    (∀ (keyId : Word) (modulus : Number) (exponent : Exponent),
      (∀ key, PublicKey.new keyId modulus exponent = .ok key ↔
        Odd (modulus.getD 0).toNat ∧ keyId = montgomeryInverse (modulus.getD 0) ∧
          key = ⟨keyId, modulus, exponent⟩) ∧
      ∀ fault, PublicKey.new keyId modulus exponent = .error fault ↔
        (Even modulus.toNat ∧ fault = .modulusEven) ∨
        (Odd modulus.toNat ∧ keyId ≠ montgomeryInverse (modulus.getD 0) ∧
          fault = .inverseMismatch)) ∧
    ∀ a b : PublicKey, PublicKey.new a.keyId a.modulus a.exponent = .ok a →
      PublicKey.new b.keyId b.modulus b.exponent = .ok b →
      (a.keyId = b.keyId ↔ a.modulus.getD 0 = b.modulus.getD 0) := by
  refine ⟨fun n hodd w => ?_, fun keyId modulus exponent => ⟨fun key => ?_, fun fault => ?_⟩,
    fun a b ha hb => PublicKey.keyId_eq_iff ha hb⟩
  · rw [← Word.mul_eq_iff_dvd, Word.mul_eq_iff, and_iff_right hodd]
  · exact PublicKey.new_eq_ok_iff_montgomeryInverse
  · exact PublicKey.new_eq_error_iff

/-- Two moduli with the lowest word 3: the words of both are accepted with one and the same key id,
and with no other. -/
theorem moduli_share_key_id :
    let short : Number := .ofNat 96 3
    let long : Number := .ofNat 96 (2 ^ 3071 + 3)
    short ≠ long ∧ 2 ^ 32 ∣ 0x55555555 * 3 + 1 ∧
      PublicKey.new 0x55555555 short .three = .ok ⟨0x55555555, short, .three⟩ ∧
      PublicKey.new 0x55555555 long .fermatFour = .ok ⟨0x55555555, long, .fermatFour⟩ ∧
      PublicKey.new 0x55555557 long .fermatFour = .error .inverseMismatch ∧
      ∀ a, PublicKey.new a.keyId a.modulus a.exponent = .ok a →
        a.keyId = 0x55555555 → a.modulus.getD 0 = 3 := by
  intro short long
  obtain ⟨hinverse, haccepted, hshared⟩ := key_ids_are_inverses
  have hlow : short.getD 0 = 3 := by decide
  have hlow' : long.getD 0 = 3 := by decide +kernel
  have hodd : Odd (3 : Word).toNat := by decide
  have hkeyId : (0x55555555 : Word) = montgomeryInverse 3 :=
    (hinverse 3 hodd 0x55555555).mp (by decide)
  have hshort : PublicKey.new 0x55555555 short .three = .ok ⟨0x55555555, short, .three⟩ :=
    ((haccepted _ _ _).1 _).mpr ⟨by rwa [hlow], by rwa [hlow], rfl⟩
  have hlong : PublicKey.new 0x55555555 long .fermatFour = .ok ⟨0x55555555, long, .fermatFour⟩ :=
    ((haccepted _ _ _).1 _).mpr ⟨by rwa [hlow'], by rwa [hlow'], rfl⟩
  have hother : PublicKey.new 0x55555557 long .fermatFour = .error .inverseMismatch := by
    refine ((haccepted _ _ _).2 _).mpr (Or.inr ⟨?_, ?_, rfl⟩)
    · exact Words.odd_toNat_iff_odd_lowest.mpr (by rwa [hlow'])
    · rw [hlow', ← hkeyId]
      decide
  refine ⟨by decide +kernel, by decide, hshort, hlong, hother, fun a ha hsame => ?_⟩
  exact ((hshared a ⟨0x55555555, short, .three⟩ ha hshort).mp hsame).trans hlow

end SignedFlash
