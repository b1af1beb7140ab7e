import SignedFlash.Proofs.Checked.Arithmetic

/-!
# Steps of a product

A step of a product has one value, which the words of the key decide together with those of the
factors, and a machine with sums of 64 bits comes to that value. This asks nothing of the key: it
may be even, it may be zero, and its key id may be any word. If the key id is the inverse of the
modulus, the word that is dropped is zero.
-/

namespace SignedFlash

-- The words wrap around, as remainders do.
theorem Modulus.toNat_quotient (m : Modulus) (d : Number) (a : Word) (b : Number) :
    (m.quotient d a b).toNat =
      (a.toNat * (b.getD 0).toNat + (d.getD 0).toNat) * m.inverse.toNat % 2 ^ 32 := by
  rw [quotient, UInt32.toNat_mul, UInt32.toNat_add, UInt32.toNat_mul, Nat.mod_add_mod,
    Nat.mod_mul_mod]

/-- One step of a product, whatever the words of the key and of the factors are. No sum of 64 bits
overflows on the way, and what is left is `t`, or `t` less the modulus where `t` does not fit into
96 words. With a key id that is the inverse of the modulus the division by `2 ^ 32` is exact. -/
theorem steps_have_closed_form (key : PublicKey) (d : Number) (a : Word) (b : Number) :
    let q := (a.toNat * (b.getD 0).toNat + (d.getD 0).toNat) * key.keyId.toNat % 2 ^ 32
    let sum := d.toNat + a.toNat * b.toNat + q * key.modulus.toNat
    let t := sum / 2 ^ 32
    let next := key.montgomery.multiplyAdd d a b
    Checked.multiplyAdd key.montgomery d a b = .ok next ∧
    t < radix + key.modulus.toNat ∧
    (t < radix → next.toNat = t) ∧
    (radix ≤ t → key.modulus.toNat ≤ t ∧ t - key.modulus.toNat < radix ∧
      next.toNat = t - key.modulus.toNat) ∧
    (key.keyId * key.modulus.getD 0 = 0xffffffff →
      2 ^ 32 ∣ sum ∧
      2 ^ 32 * next.toNat ≡ d.toNat + a.toNat * b.toNat [MOD key.modulus.toNat]) := by
  intro q sum t next
  have hq : (key.montgomery.quotient d a b).toNat = q := key.montgomery.toNat_quotient d a b
  have ht : key.montgomery.stepValue d a b = t := by
    rw [Modulus.stepValue, hq]
    rfl
  have hlt : t < radix + key.modulus.toNat := ht ▸ key.montgomery.stepValue_lt d a b
  have hn : key.modulus.toNat < radix := key.modulus.toNat_lt_radix
  have hnext := key.montgomery.toNat_multiplyAdd d a b
  rw [ht] at hnext
  refine ⟨Checked.multiplyAdd_eq_ok _ d a b, hlt, ?_, ?_, ?_⟩
  · intro hfits
    rwa [if_pos hfits] at hnext
  · intro hover
    rw [if_neg (Nat.not_lt.mpr hover)] at hnext
    exact ⟨by omega, by omega, hnext⟩
  · intro hinverse
    have hconsistent : key.montgomery.IsConsistent := hinverse
    have hexact := hconsistent.stepValue_mul d a b
    rw [ht, hq] at hexact
    exact ⟨⟨t, hexact.symm⟩, (hconsistent.isQuotient_multiplyAdd d a b).modEq⟩

/-- A step with the greatest words, for a key whose id is the inverse of its modulus. Its value does
not fit into 96 words, so that the modulus is taken away. -/
theorem step_of_greatest_words :
    let ones : List Word := List.replicate 95 0xffffffff
    let key : PublicKey := ⟨1, .ofList 96 (0xffffffff :: ones), .three⟩
    let d : Number := .ofList 96 (0 :: ones)
    let b : Number := .ofList 96 (1 :: ones)
    let next := key.montgomery.multiplyAdd d 0xffffffff b
    Checked.multiplyAdd key.montgomery d 0xffffffff b = .ok next ∧
    radix ≤ next.toNat + key.modulus.toNat ∧
    2 ^ 32 * next.toNat ≡ d.toNat + 0xffffffff * b.toNat [MOD key.modulus.toNat] := by
  intro ones key d b next
  have hinverse : key.keyId * key.modulus.getD 0 = 0xffffffff := by decide
  obtain ⟨hok, -, -, hover, hexact⟩ := steps_have_closed_form key d 0xffffffff b
  obtain ⟨hle, -, hnext⟩ := hover (by decide +kernel)
  refine ⟨hok, ?_, (hexact hinverse).2⟩
  rw [hnext, Nat.sub_add_cancel hle]
  decide +kernel

end SignedFlash
