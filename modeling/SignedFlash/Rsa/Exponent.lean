import SignedFlash.Fault

/-!
# Public exponents
-/

namespace SignedFlash

inductive Exponent where
  | three
  | fermatFour
  deriving DecidableEq, Repr

namespace Exponent

def value : Exponent → Word
  | .three => 3
  | .fermatFour => 65537

def ofWord (w : Word) : Except Fault Exponent :=
  if w = 3 then .ok .three
  else if w = 65537 then .ok .fermatFour
  else .error .unsupportedExponent

end Exponent

end SignedFlash
