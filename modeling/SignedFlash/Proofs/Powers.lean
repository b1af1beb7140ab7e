import SignedFlash.Rsa.PublicKey
import SignedFlash.Proofs.Montgomery
import Mathlib.Data.Int.ModEq
import Mathlib.Data.Nat.Prime.Basic

/-!
# Raising to the public exponent

With a key that obeys the rules, raising `s * R mod n` to the public exponent gives `s ^ e mod n`,
fully reduced. Every number is such a product modulo `n`, because `n` is odd and `R` is a power of
two, so this tells what becomes of every signature, also of one that is not below `n`.
-/

namespace SignedFlash

namespace PublicKey

theorem new_eq_ok_iff {keyId : Word} {modulus : Number} {exponent : Exponent} {key : PublicKey} :
    new keyId modulus exponent = .ok key ↔
      modulus.getD 0 &&& 1 ≠ 0 ∧ keyId * modulus.getD 0 = 0xffffffff ∧
        key = ⟨keyId, modulus, exponent⟩ := by
  unfold new
  split
  · rename_i heven
    exact ⟨nofun, fun h => absurd heven h.1⟩
  split
  · rename_i hmismatch
    exact ⟨nofun, fun h => absurd h.2.1 hmismatch⟩
  · rename_i hodd hinverse
    exact ⟨fun h => ⟨hodd, not_not.mp hinverse, (Except.ok.inj h).symm⟩,
      fun h => congrArg Except.ok h.2.2.symm⟩

end PublicKey

-- The lowest bit of a word, alone.
theorem Word.odd_toNat_iff {w : Word} : Odd w.toNat ↔ w &&& 1 ≠ 0 := by
  rw [Nat.odd_iff, ne_eq, ← UInt32.toNat_inj, UInt32.toNat_and]
  show w.toNat % 2 = 1 ↔ ¬ w.toNat &&& 1 = 0
  rw [Nat.and_one_is_mod]
  omega

namespace Words

-- The lowest bit of a number is that of its lowest word.
theorem odd_toNat_iff_odd_lowest {x : Number} : Odd x.toNat ↔ Odd (x.getD 0).toNat := by
  obtain ⟨w, ws, hws⟩ := List.exists_cons_of_length_eq_add_one x.length_toList
  have hlow : x.toNat % 2 = w.toNat % 2 := by
    rw [toNat, hws, numberOfWords_cons]
    omega
  rw [getD, hws, List.getD_cons_zero, Nat.odd_iff, Nat.odd_iff, hlow]

theorem odd_toNat_iff {x : Number} : Odd x.toNat ↔ x.getD 0 &&& 1 ≠ 0 :=
  odd_toNat_iff_odd_lowest.trans Word.odd_toNat_iff

theorem odd_toNat {x : Number} (h : x.getD 0 &&& 1 ≠ 0) : Odd x.toNat := odd_toNat_iff.mpr h

end Words

namespace Modulus

variable {m : Modulus}

theorem coprime_radix (hodd : Odd m.words.toNat) : Nat.Coprime radix m.words.toNat := by
  have hpower (k : Nat) : Nat.Coprime (2 ^ k) m.words.toNat :=
    Nat.Coprime.pow_left k (Nat.coprime_two_left.mpr hodd)
  exact hpower (32 * 96)

-- Every number is a product with the radix.
theorem exists_modEq_mul_radix (hodd : Odd m.words.toNat) (x : Nat) :
    ∃ s, x ≡ s * radix [MOD m.words.toNat] := by
  obtain ⟨s, -, hs⟩ :=
    Nat.exists_mul_mod_eq_of_coprime x (coprime_radix hodd) (Nat.ne_of_gt hodd.pos)
  exact ⟨s, by rw [Nat.mul_comm]; exact hs.symm⟩

/-- Products keep the factor `radix`: they multiply what stands before it. -/
theorem IsConsistent.multiply_form (h : m.IsConsistent) (hodd : Odd m.words.toNat) {a b : Number}
    {s p q : Nat} (ha : a.toNat ≡ s ^ p * radix [MOD m.words.toNat])
    (hb : b.toNat ≡ s ^ q * radix [MOD m.words.toNat]) :
    (m.multiply a b).toNat ≡ s ^ (p + q) * radix [MOD m.words.toNat] := by
  apply Nat.ModEq.cancel_left_of_coprime (coprime_radix hodd).symm
  calc radix * (m.multiply a b).toNat
    _ ≡ a.toNat * b.toNat [MOD m.words.toNat] := h.multiply_modEq a b
    _ ≡ s ^ p * radix * (s ^ q * radix) [MOD m.words.toNat] := ha.mul hb
    _ = radix * (s ^ (p + q) * radix) := by ring

theorem IsConsistent.reduce_form (h : m.IsConsistent) (hodd : Odd m.words.toNat) {a : Number}
    {k : Nat} (ha : a.toNat ≡ k * radix [MOD m.words.toNat]) :
    (m.reduce a).toNat ≡ k [MOD m.words.toNat] := by
  apply Nat.ModEq.cancel_left_of_coprime (coprime_radix hodd).symm
  rw [Nat.mul_comm radix k]
  exact (h.reduce_modEq a).trans ha

end Modulus

namespace PublicKey

variable {key : PublicKey}

/-- A signature in Montgomery form gives the power of the number it stands for. -/
theorem power_form (hinverse : key.montgomery.IsConsistent) (hodd : Odd key.modulus.toNat)
    {x : Number} {s : Nat} (hx : x.toNat ≡ s * radix [MOD key.modulus.toNat]) :
    (key.power x).toNat ≡ s ^ key.exponent.value.toNat [MOD key.modulus.toNat] := by
  have hmul {a b : Number} {p q : Nat} (ha : a.toNat ≡ s ^ p * radix [MOD key.modulus.toNat])
      (hb : b.toNat ≡ s ^ q * radix [MOD key.modulus.toNat]) :
      (key.montgomery.multiply a b).toNat ≡ s ^ (p + q) * radix [MOD key.modulus.toNat] :=
    hinverse.multiply_form hodd ha hb
  have hone : x.toNat ≡ s ^ 1 * radix [MOD key.modulus.toNat] := by rwa [Nat.pow_one]
  have hsquare := hmul hone hone
  have hreduce {a : Number} {p : Nat} (ha : a.toNat ≡ s ^ p * radix [MOD key.modulus.toNat]) :
      (key.montgomery.reduce a).toNat ≡ s ^ p [MOD key.modulus.toNat] :=
    hinverse.reduce_form hodd ha
  unfold power
  cases key.exponent with
  | three =>
    have hthree : Exponent.three.value.toNat = 1 + 1 + 1 := rfl
    rw [hthree]
    exact hreduce (hmul hsquare hone)
  | fermatFour =>
    -- squaring twice multiplies the exponent by four
    have htwice {a : Number} {p : Nat} (ha : a.toNat ≡ s ^ p * radix [MOD key.modulus.toNat]) :
        (key.montgomery.multiply (key.montgomery.multiply a a)
          (key.montgomery.multiply a a)).toNat ≡ s ^ (4 * p) * radix [MOD key.modulus.toNat] := by
      rw [show 4 * p = p + p + (p + p) by omega]
      exact hmul (hmul ha ha) (hmul ha ha)
    have hhigh := htwice (htwice (htwice (htwice (htwice (htwice (htwice hsquare))))))
    have hfermat : Exponent.fermatFour.value.toNat =
        4 * (4 * (4 * (4 * (4 * (4 * (4 * (1 + 1))))))) +
          4 * (4 * (4 * (4 * (4 * (4 * (4 * (1 + 1))))))) + 1 := rfl
    rw [hfermat]
    exact hreduce (hmul (hmul hhigh hhigh) hone)

theorem power_lt (hinverse : key.montgomery.IsConsistent) (hpos : 0 < key.modulus.toNat)
    (x : Number) : (key.power x).toNat < key.modulus.toNat := by
  unfold power
  exact hinverse.toNat_reduce_lt hpos _

theorem power_modEq (hinverse : key.montgomery.IsConsistent) (hodd : Odd key.modulus.toNat)
    (x : Number) :
    (key.power x).toNat * radix ^ key.exponent.value.toNat ≡
      x.toNat ^ key.exponent.value.toNat [MOD key.modulus.toNat] := by
  obtain ⟨s, hs⟩ := Modulus.exists_modEq_mul_radix (m := key.montgomery) hodd x.toNat
  calc (key.power x).toNat * radix ^ key.exponent.value.toNat
    _ ≡ s ^ key.exponent.value.toNat * radix ^ key.exponent.value.toNat [MOD key.modulus.toNat] :=
      (power_form hinverse hodd hs).mul_right _
    _ = (s * radix) ^ key.exponent.value.toNat := (Nat.mul_pow _ _ _).symm
    _ ≡ x.toNat ^ key.exponent.value.toNat [MOD key.modulus.toNat] := (hs.symm.pow _)

/-- The power is the one reduced number with the right remainder. -/
theorem power_eq_iff (hinverse : key.montgomery.IsConsistent) (hodd : Odd key.modulus.toNat)
    (x y : Number) :
    key.power x = y ↔ y.toNat < key.modulus.toNat ∧
      y.toNat * radix ^ key.exponent.value.toNat ≡
        x.toNat ^ key.exponent.value.toNat [MOD key.modulus.toNat] := by
  constructor
  · rintro rfl
    exact ⟨power_lt hinverse hodd.pos x, power_modEq hinverse hodd x⟩
  · rintro ⟨hlt, hmodEq⟩
    have hcoprime : Nat.Coprime key.modulus.toNat (radix ^ key.exponent.value.toNat) :=
      (Modulus.coprime_radix (m := key.montgomery) hodd).symm.pow_right _
    have hequal := Nat.ModEq.cancel_right_of_coprime hcoprime
      ((power_modEq hinverse hodd x).trans hmodEq.symm)
    exact Words.toNat_injective
      (Nat.ModEq.eq_of_lt_of_lt hequal (power_lt hinverse hodd.pos x) hlt)

-- A signature in Montgomery form is raised to the public exponent.
theorem power_ofNat (hinverse : key.montgomery.IsConsistent) (hodd : Odd key.modulus.toNat)
    (s : ℤ) :
    key.power (.ofNat 96 (s * radix % key.modulus.toNat).toNat) =
      .ofNat 96 (s ^ key.exponent.value.toNat % key.modulus.toNat).toNat := by
  have hpos : (0 : ℤ) < key.modulus.toNat := Int.natCast_pos.mpr hodd.pos
  have hfits {k : ℤ} : (k % key.modulus.toNat).toNat < 2 ^ (32 * 96) := by
    have hlt := Int.emod_lt_of_pos k hpos
    have hmodulus := key.modulus.toNat_lt
    omega
  have hcast {k : ℤ} : ((k % key.modulus.toNat).toNat : ℤ) ≡ k [ZMOD key.modulus.toNat] := by
    rw [Int.toNat_of_nonneg (Int.emod_nonneg _ hpos.ne')]
    exact Int.mod_modEq _ _
  have hform : (s * radix % key.modulus.toNat).toNat ≡
      (s % key.modulus.toNat).toNat * radix [MOD key.modulus.toNat] := by
    rw [← Int.natCast_modEq_iff, Nat.cast_mul]
    exact hcast.trans (hcast.symm.mul_right _)
  have hpower := power_form (x := .ofNat 96 (s * radix % key.modulus.toNat).toNat) hinverse hodd
    (by rw [Words.toNat_ofNat hfits]; exact hform)
  have hreduced : (s ^ key.exponent.value.toNat % key.modulus.toNat).toNat ≡
      (s % key.modulus.toNat).toNat ^ key.exponent.value.toNat [MOD key.modulus.toNat] := by
    rw [← Int.natCast_modEq_iff, Nat.cast_pow]
    exact hcast.trans (hcast.symm.pow _)
  apply Words.toNat_injective
  rw [Words.toNat_ofNat hfits]
  apply Nat.ModEq.eq_of_lt_of_lt (hpower.trans hreduced.symm) (power_lt hinverse hodd.pos _)
  have hlt := Int.emod_lt_of_pos (s ^ key.exponent.value.toNat) hpos
  have hnonneg := Int.emod_nonneg (s ^ key.exponent.value.toNat) hpos.ne'
  omega

end PublicKey

/-- A key that obeys the rules raises every number to the public exponent modulo its modulus: up to
the powers of `2 ^ 3072` that numbers in Montgomery form carry, and fully reduced. -/
theorem power_eq_pow {keyId : Word} {modulus : Number} {exponent : Exponent} {key : PublicKey}
    (hkey : PublicKey.new keyId modulus exponent = .ok key) :
    (∀ x : Number, (key.power x).toNat < modulus.toNat ∧
      (key.power x).toNat * radix ^ exponent.value.toNat ≡
        x.toNat ^ exponent.value.toNat [MOD modulus.toNat]) ∧
    ∀ s : ℤ, key.power (.ofNat 96 (s * radix % modulus.toNat).toNat) =
      .ofNat 96 (s ^ exponent.value.toNat % modulus.toNat).toNat := by
  obtain ⟨hbit, hinverse, rfl⟩ := PublicKey.new_eq_ok_iff.mp hkey
  have hodd : Odd modulus.toNat := Words.odd_toNat hbit
  have hconsistent : (PublicKey.mk keyId modulus exponent).montgomery.IsConsistent := hinverse
  exact ⟨fun x => ⟨PublicKey.power_lt hconsistent hodd.pos x,
    PublicKey.power_modEq hconsistent hodd x⟩, PublicKey.power_ofNat hconsistent hodd⟩

/-- With the modulus 3 even the greatest number is raised, and `-1` gives `2`. -/
theorem power_of_short_key :
    let modulus : Number := .ofNat 96 3
    let greatest : Number := .replicate 96 0xffffffff
    ∃ key, PublicKey.new 0x55555555 modulus .three = .ok key ∧
      modulus.toNat = 3 ∧ modulus.toNat < greatest.toNat ∧ (key.power greatest).toNat < 3 ∧
      (key.power greatest).toNat * radix ^ 3 ≡ greatest.toNat ^ 3 [MOD 3] ∧
      key.power (.ofNat 96 ((-1 : ℤ) * radix % (3 : Nat)).toNat) = .ofNat 96 2 := by
  intro modulus greatest
  have hmodulus : modulus.toNat = 3 := by decide +kernel
  have hkey : PublicKey.new 0x55555555 modulus .three = .ok ⟨0x55555555, modulus, .three⟩ :=
    PublicKey.new_eq_ok_iff.mpr ⟨by decide, by decide, rfl⟩
  obtain ⟨hpower, hform⟩ := power_eq_pow hkey
  rw [hmodulus, show Exponent.three.value.toNat = 3 from rfl] at hpower hform
  obtain ⟨hlt, hmodEq⟩ := hpower greatest
  have hminus := hform (-1)
  rw [show ((-1 : ℤ) ^ 3 % (3 : Nat)).toNat = 2 from rfl] at hminus
  exact ⟨_, hkey, hmodulus, by decide +kernel, hlt, hmodEq, hminus⟩

end SignedFlash
