import SignedFlash.Proofs.Powers

/-!
# Products in a buffer

A product is formed in a buffer that is cleared first, so that what it held before does not show.
Nothing is asked of the factors: one that is not below the modulus is multiplied as it is, and what
a reduction leaves is below the modulus all the same.
-/

namespace SignedFlash

namespace Words

variable {n : Nat}

-- Writes one word to every place.
def fill (ws : Words n) (w : Word) : Words n := ws.map fun _ => w

theorem fill_zero (ws : Words n) : ws.fill 0 = zero n := by
  ext1
  change ws.toList.map (fun _ => 0) = List.replicate n 0
  rw [List.map_const', ws.length_toList]

end Words

namespace Modulus

variable (m : Modulus)

-- Forms a product in a buffer.
def multiplyInto (buffer a b : Number) : Number :=
  a.toList.foldl (fun d w => m.multiplyAdd d w b) (buffer.fill 0)

-- Forms a reduction in a buffer.
def reduceInto (buffer a : Number) : Number :=
  let first := m.multiplyAdd (buffer.fill 0) 1 a
  let d := (List.replicate 95 0).foldl (fun d w => m.multiplyAdd d w a) first
  if atLeast d.toList.reverse m.words.toList.reverse then m.subtractOnce d else d

theorem multiplyInto_eq (buffer a b : Number) : m.multiplyInto buffer a b = m.multiply a b := by
  rw [multiplyInto, Words.fill_zero, multiply]

theorem reduceInto_eq (buffer a : Number) : m.reduceInto buffer a = m.reduce a := by
  rw [reduceInto, Words.fill_zero, reduce, List.foldl_cons]

variable {m}

/-- A reduction is the one number below the modulus that gives the number reduced when it is
multiplied by `2 ^ 3072`. -/
theorem IsConsistent.eq_toNat_reduce_iff (h : m.IsConsistent) (hodd : Odd m.words.toNat)
    (a : Number) {k : Nat} :
    k = (m.reduce a).toNat ↔ k < m.words.toNat ∧ k * radix ≡ a.toNat [MOD m.words.toNat] := by
  have hlt := h.toNat_reduce_lt hodd.pos a
  have hmodEq := h.reduce_modEq a
  rw [Nat.mul_comm] at hmodEq
  constructor
  · rintro rfl
    exact ⟨hlt, hmodEq⟩
  · rintro ⟨hklt, hk⟩
    -- the modulus is odd, so the factor cancels
    have hsame : k ≡ (m.reduce a).toNat [MOD m.words.toNat] :=
      Nat.ModEq.cancel_right_of_coprime (coprime_radix hodd).symm (hk.trans hmodEq.symm)
    exact hsame.eq_of_lt_of_lt hklt hlt

end Modulus

/-- With a key that obeys the rules, products and reductions of any numbers, also of such as are not
below the modulus, come out right, whatever the buffer held that they are formed in. -/
theorem products_come_out_right {keyId : Word} {modulus : Number} {exponent : Exponent}
    {key : PublicKey} (hkey : PublicKey.new keyId modulus exponent = .ok key)
    (buffer a b : Number) :
    (key.montgomery.multiplyInto buffer a b).toNat * radix ≡ a.toNat * b.toNat
      [MOD modulus.toNat] ∧
    (∀ k, k = (key.montgomery.reduceInto buffer a).toNat ↔
      k < modulus.toNat ∧ k * radix ≡ a.toNat [MOD modulus.toNat]) ∧
    key.montgomery.multiplyInto buffer a b = key.montgomery.multiply a b ∧
    key.montgomery.reduceInto buffer a = key.montgomery.reduce a := by
  obtain ⟨hbit, hinverse, rfl⟩ := PublicKey.new_eq_ok_iff.mp hkey
  have hodd : Odd modulus.toNat := Words.odd_toNat hbit
  have hconsistent : (PublicKey.mk keyId modulus exponent).montgomery.IsConsistent := hinverse
  rw [Modulus.multiplyInto_eq, Modulus.reduceInto_eq]
  refine ⟨?_, fun k => hconsistent.eq_toNat_reduce_iff hodd a, rfl, rfl⟩
  rw [Nat.mul_comm]
  exact hconsistent.multiply_modEq a b

/-- With the modulus 3 the greatest number is multiplied by itself and reduced in a buffer that held
the same number. It is a multiple of 3, so that nothing is left of it. -/
theorem products_of_greatest :
    let modulus : Number := .ofNat 96 3
    let greatest : Number := .replicate 96 0xffffffff
    ∃ key, PublicKey.new 0x55555555 modulus .three = .ok key ∧
      modulus.toNat < greatest.toNat ∧
      (key.montgomery.multiplyInto greatest greatest greatest).toNat * radix ≡
        greatest.toNat * greatest.toNat [MOD modulus.toNat] ∧
      (key.montgomery.reduceInto greatest greatest).toNat = 0 := by
  intro modulus greatest
  have hmodulus : modulus.toNat = 3 := by decide +kernel
  have hkey : PublicKey.new 0x55555555 modulus .three = .ok ⟨0x55555555, modulus, .three⟩ :=
    PublicKey.new_eq_ok_iff.mpr ⟨by decide, by decide, rfl⟩
  obtain ⟨hproduct, hreduction, -, -⟩ := products_come_out_right hkey greatest greatest greatest
  have hzero : 0 < modulus.toNat ∧ 0 * radix ≡ greatest.toNat [MOD modulus.toNat] := by
    rw [hmodulus]
    decide +kernel
  exact ⟨_, hkey, by decide +kernel, hproduct, ((hreduction 0).mpr hzero).symm⟩

end SignedFlash
