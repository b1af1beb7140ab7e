import SignedFlash.Command.Verify
import SignedFlash.Proofs.ConfiguredKeys
import SignedFlash.Proofs.KeyIds

/-!
# Key files

A configured key may be given by a file in place of its words. Whatever decodes the file, it makes
an entry exactly if it can be read and decoded to an odd modulus and an exponent that fit the words
of a key. There is no key id that could be wrong: the one that belongs to the modulus is worked out.
From there on the key counts like one whose words are written out.
-/

namespace SignedFlash

theorem bitLength_le_iff {n k : Nat} : bitLength n ≤ k ↔ n < 2 ^ k := by
  unfold bitLength
  by_cases hzero : n = 0
  · rw [if_pos hzero, hzero]
    exact iff_of_true (Nat.zero_le k) (Nat.two_pow_pos k)
  · rw [if_neg hzero, Nat.succ_le_iff]
    exact Nat.log2_lt hzero

-- The numbers of at most 3072 bits are those that 96 words spell.
theorem not_lt_bitLength_iff {n : Nat} : ¬ 3072 < bitLength n ↔ n < radix := by
  rw [Nat.not_lt]
  exact bitLength_le_iff (k := 32 * 96)

namespace RawPublicKey

/-- Whether a key has the numbers of a decoded one, and the key id that belongs to its modulus. -/
structure Makes (raw : RawPublicKey) (key : PublicKey) : Prop where
  modulus : key.modulus.toNat = raw.modulus
  exponent : key.exponent.value.toNat = raw.exponent
  keyId : key.keyId = montgomeryInverse (key.modulus.getD 0)

variable {raw : RawPublicKey} {key : PublicKey}

theorem Makes.eq_ofModulus (h : raw.Makes key) : key = .ofModulus key.modulus key.exponent := by
  rw [PublicKey.ofModulus, ← h.keyId]

-- Numbers that do not fit make no key.
theorem Makes.modulus_lt (h : raw.Makes key) : raw.modulus < radix := by
  rw [← h.modulus]
  exact key.modulus.toNat_lt_radix

theorem Makes.exponent_lt (h : raw.Makes key) : raw.exponent < 2 ^ 32 := by
  rw [← h.exponent]
  exact key.exponent.value.toNat_lt

theorem Makes.toKey_eq_ok (h : raw.Makes key) : raw.toKey = .ok key := by
  have hbits : ¬ 3072 < bitLength raw.modulus := not_lt_bitLength_iff.mpr h.modulus_lt
  have hword : ¬ 0x100000000 ≤ raw.exponent := Nat.not_le.mpr h.exponent_lt
  have hwords : Words.ofNat 96 raw.modulus = key.modulus := by
    apply Words.toNat_injective
    rw [h.modulus]
    exact Words.toNat_ofNat h.modulus_lt
  rw [toKey, if_neg hbits, if_neg hword, ← h.exponent, UInt32.ofNat_toNat, Exponent.ofWord_value,
    hwords]
  exact congrArg Except.ok h.eq_ofModulus.symm

/-- A decoded key gives the key that has its numbers, if there is one. -/
theorem toKey_eq_ok_iff : raw.toKey = .ok key ↔ raw.Makes key := by
  refine ⟨fun hkey => ?_, Makes.toKey_eq_ok⟩
  unfold toKey at hkey
  by_cases hbits : 3072 < bitLength raw.modulus
  · rw [if_pos hbits] at hkey
    exact nomatch hkey
  by_cases hword : 0x100000000 ≤ raw.exponent
  · rw [if_neg hbits, if_pos hword] at hkey
    exact nomatch hkey
  rw [if_neg hbits, if_neg hword] at hkey
  cases hexponent : Exponent.ofWord (UInt32.ofNat raw.exponent) with
  | error fault =>
    rw [hexponent] at hkey
    exact nomatch hkey
  | ok exponent =>
    rw [hexponent] at hkey
    obtain rfl := Except.ok.inj hkey
    have hvalue : exponent.value.toNat = raw.exponent := by
      rw [Exponent.value_of_ofWord hexponent, UInt32.toNat_ofNat']
      exact Nat.mod_eq_of_lt (Nat.not_le.mp hword)
    exact ⟨Words.toNat_ofNat (not_lt_bitLength_iff.mp hbits), hvalue, rfl⟩

end RawPublicKey

section

variable {decodePem : PemDecoder} {files : Files}

theorem readKeyFile_eq_ok_iff {path : String} {key : PublicKey} :
    readKeyFile decodePem files path = .ok key ↔
      ∃ pem raw, files path = .ok pem ∧ decodePem pem = .ok raw ∧ raw.toKey = .ok key := by
  unfold readKeyFile
  cases hfile : files path with
  | error error => simp
  | ok pem =>
    cases hdecoded : decodePem pem with
    | error reason => simp [hdecoded]
    | ok raw =>
      cases hkey : raw.toKey with
      | error error => simp [Except.mapError, hdecoded, hkey]
      | ok key' => simp [Except.mapError, hdecoded, hkey]

theorem keyFiles_eq_ok_iff {config file : String} {key : PublicKey} :
    keyFiles decodePem files config file = .ok key ↔
      readKeyFile decodePem files (Text.beside config file) = .ok key := by
  unfold keyFiles
  cases readKeyFile decodePem files (Text.beside config file) <;> simp [Except.mapError]

namespace KeySetting

/-- Whether a configured key is given by a file and nothing else. -/
structure IsGivenByFile (setting : KeySetting) (file : String) : Prop where
  hasFile : setting.pem = some file
  noKeyId : setting.keyId = none
  noExponent : setting.exponent = none
  noModulus : setting.modulus = none

variable {setting : KeySetting} {file : String} {entry : KeyEntry}

/-- A key out of a file is checked as a key in words is, and makes an entry if it passes. -/
theorem IsGivenByFile.toEntry_eq_ok_iff {reader : KeyFileReader}
    (hgiven : setting.IsGivenByFile file) :
    setting.toEntry reader = .ok entry ↔
      ∃ key, reader file = .ok key ∧ Odd key.modulus.toNat ∧
        key.keyId = montgomeryInverse (key.modulus.getD 0) ∧
        entry = ⟨setting.name, setting.family, setting.role, key⟩ := by
  obtain ⟨name, family, role, keyId, exponent, modulus, pem⟩ := setting
  obtain ⟨rfl, rfl, rfl, rfl⟩ := hgiven
  cases hkey : reader file with
  | error reason => simp [toEntry, hkey]
  | ok key =>
    have hmake : toEntry ⟨name, family, role, none, none, none, some file⟩ reader = .ok entry ↔
        ∃ key', PublicKey.new key.keyId key.modulus key.exponent = .ok key' ∧
          entry = ⟨name, family, role, key'⟩ := by
      simp only [toEntry, hkey, Option.isSome_none, Bool.or_self, Bool.false_eq_true, if_false,
        KeyEntry.new_toList]
      cases PublicKey.new key.keyId key.modulus key.exponent <;>
        simp [Except.map, Except.mapError, eq_comm]
    simp only [hmake, PublicKey.new_eq_ok_iff_montgomeryInverse, Except.ok.injEq, exists_eq_left',
      ← Words.odd_toNat_iff_odd_lowest, and_assoc, exists_and_left, exists_eq_left]

/-- A key file makes an entry exactly if it is read and decoded to an odd modulus and an exponent
that some key has. That key, under the key id of its modulus, is the key of the entry. -/
theorem IsGivenByFile.toEntry_keyFiles_eq_ok_iff {config : String}
    (hgiven : setting.IsGivenByFile file) :
    setting.toEntry (keyFiles decodePem files config) = .ok entry ↔
      (entry.name = setting.name ∧ entry.family = setting.family ∧ entry.role = setting.role) ∧
      ∃ pem raw, files (Text.beside config file) = .ok pem ∧ decodePem pem = .ok raw ∧
        Odd raw.modulus ∧ raw.Makes entry.key := by
  rw [hgiven.toEntry_eq_ok_iff]
  simp only [keyFiles_eq_ok_iff, readKeyFile_eq_ok_iff, RawPublicKey.toKey_eq_ok_iff]
  constructor
  · rintro ⟨key, ⟨pem, raw, hfile, hdecoded, hmakes⟩, hodd, -, rfl⟩
    rw [hmakes.modulus] at hodd
    exact ⟨⟨rfl, rfl, rfl⟩, pem, raw, hfile, hdecoded, hodd, hmakes⟩
  · rintro ⟨⟨hname, hfamily, hrole⟩, pem, raw, hfile, hdecoded, hodd, hmakes⟩
    rw [← hmakes.modulus] at hodd
    refine ⟨entry.key, ⟨pem, raw, hfile, hdecoded, hmakes⟩, hodd, hmakes.keyId, ?_⟩
    rw [← hname, ← hfamily, ← hrole]

end KeySetting

end

end SignedFlash
