import SignedFlash.Rsa.Exponent
import SignedFlash.Rsa.Montgomery

/-!
# RSA public keys

A public key is known by its key id, which is the Montgomery inverse of its modulus. Signatures are
stored in Montgomery form, `s * R mod n`, so that raising one to the public exponent takes
Montgomery products alone.
-/

namespace SignedFlash

-- A public key. Nothing is promised of its words: `PublicKey.new` checks them.
@[ext] structure PublicKey where
  keyId : Word
  modulus : Number
  exponent : Exponent
  deriving DecidableEq

namespace PublicKey

/-- The key with the given words, if its modulus is odd and its key id is the Montgomery inverse of
the modulus. -/
def new (keyId : Word) (modulus : Number) (exponent : Exponent) : Except Fault PublicKey :=
  if modulus.getD 0 &&& 1 = 0 then .error .modulusEven
  else if keyId * modulus.getD 0 ≠ 0xffffffff then .error .inverseMismatch
  else .ok ⟨keyId, modulus, exponent⟩

variable (key : PublicKey)

/-- Whether the key is one of the legacy keys of 2048 bits, which leave the top word empty. -/
def isLegacy : Bool := key.modulus.getD 95 == 0

def montgomery : Modulus := ⟨key.keyId, key.modulus⟩

/-- A signature raised to the public exponent: from `s * R mod n` to `s ^ e mod n`. -/
def power (signature : Number) : Number :=
  let mul := key.montgomery.multiply
  let square := mul signature signature
  key.montgomery.reduce <|
    match key.exponent with
    | .three => mul square signature
    | .fermatFour =>
      let twice (x : Number) : Number :=
        let y := mul x x
        mul y y
      let high := twice (twice (twice (twice (twice (twice (twice square))))))
      mul (mul high high) signature

end PublicKey

end SignedFlash
