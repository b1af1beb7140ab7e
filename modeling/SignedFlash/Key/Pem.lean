import SignedFlash.Rsa.PublicKey

/-!
# Public keys in PEM

A public key in PEM is a modulus and an exponent, numbers of any size. How they are decoded is left
to a cryptographic library, which is a parameter; what is decided here is whether the numbers fit a
key of this library, and which key id belongs to them.
-/

namespace SignedFlash

-- A public key as it is decoded.
structure RawPublicKey where
  modulus : Nat
  exponent : Nat
  deriving DecidableEq

/-- What reads the numbers of a public key out of a file in PEM, or says why it cannot. -/
abbrev PemDecoder := Bytes → Except String RawPublicKey

-- The reasons for which the numbers of a public key make no key.
inductive RawKeyError where
  | modulusTooLong (bits : Nat)
  -- The exponent does not fit a word.
  | exponentTooLarge
  | exponentRefused (exponent : Word) (fault : Fault)
  deriving DecidableEq

def RawKeyError.message : RawKeyError → String
  | .modulusTooLong bits => "Modulus is " ++ toString bits ++ " bits, at most 3072 supported"
  | .exponentTooLarge => "number too large to fit in target type"
  | .exponentRefused exponent fault =>
    "Exponent " ++ toString exponent.toNat ++ ": " ++ fault.message

/-- The number of bits of a number, of which zero has none. -/
def bitLength (n : Nat) : Nat := if n = 0 then 0 else n.log2 + 1

-- The key whose key id is worked out from the modulus. Whether that is odd is not checked here.
def PublicKey.ofModulus (modulus : Number) (exponent : Exponent) : PublicKey :=
  ⟨montgomeryInverse (modulus.getD 0), modulus, exponent⟩

/-- The key with the given numbers, if the modulus has at most 3072 bits and the exponent is one
that keys have. -/
def RawPublicKey.toKey (raw : RawPublicKey) : Except RawKeyError PublicKey :=
  if 3072 < bitLength raw.modulus then .error (.modulusTooLong (bitLength raw.modulus))
  else if 0x100000000 ≤ raw.exponent then .error .exponentTooLarge
  else
    match Exponent.ofWord (UInt32.ofNat raw.exponent) with
    | .error fault => .error (.exponentRefused (UInt32.ofNat raw.exponent) fault)
    | .ok exponent => .ok (.ofModulus (.ofNat 96 raw.modulus) exponent)

end SignedFlash
