import SignedFlash.Words

/-!
# Montgomery arithmetic

Multiplication of 3072-bit numbers modulo `n` without division: `a` and `b` give `a * b / R mod n`
for `R = 2 ^ 3072`. Each step adds the product of one word of `a` and all of `b` to an accumulator,
adds the multiple of `n` that clears the accumulator's lowest word, and drops that word. The
accumulator is kept below `R`, not below `n`: `n` is taken away only when the sum carries out of the
top word. Nothing is assumed of the words, so that a key taken from an untrusted header is worked
with as it is.
-/

namespace SignedFlash

structure Modulus where
  -- What the lowest word of an accumulator is multiplied by to find the multiple of the modulus
  -- that clears it.
  inverse : Word
  words : Number
  deriving DecidableEq

/-- From an inverse of `n` that is right in its low bits, one that is right in twice as many. -/
def refineInverse (n x : Word) : Word := x * (2 - n * x)

/-- The Montgomery inverse of a modulus with lowest word `n`: `-1 / n mod 2 ^ 32` for odd `n`. One
is right in its lowest bit, and five refinements make it right in all 32. -/
def montgomeryInverse (n : Word) : Word :=
  let refine := refineInverse n
  0 - refine (refine (refine (refine (refine 1))))

namespace Modulus

/-- Adds `a * b` and `q * n` to `d`, word by word and each with a carry of its own. The sum has two
words more than the numbers. The arguments `carryA` and `carryB` are what the words below carry
over. -/
def accumulate (a q : UInt64) : (carryA carryB : UInt64) → (b d n : List Word) → List Word
  | carryA, carryB, b :: bs, d :: ds, n :: ns =>
    let sumA := carryA + (a * b.toUInt64 + d.toUInt64)
    let sumB := carryB + (q * n.toUInt64 + sumA.toUInt32.toUInt64)
    sumB.toUInt32 :: accumulate a q (sumA >>> 32) (sumB >>> 32) bs ds ns
  | carryA, carryB, _, _, _ =>
    let top := carryA + carryB
    [top.toUInt32, (top >>> 32).toUInt32]

/-- Takes one number from another of equal length, with a borrow from below, and leaves the last
borrow out. -/
def subtract : (borrow : Bool) → (d n : List Word) → List Word
  | borrow, d :: ds, n :: ns =>
    (d - n - borrow.toUInt32) :: subtract (d.toNat < n.toNat + borrow.toNat) ds ns
  | _, _, _ => []

-- Whether one number is at least another, given from the highest word down.
def atLeast : (a n : List Word) → Bool
  | a :: as, n :: ns => if a = n then atLeast as ns else decide (n < a)
  | _, _ => true

variable (m : Modulus)

-- `d - n`, up to a multiple of `2 ^ 3072`.
def subtractOnce (d : Number) : Number := .ofList 96 (subtract false d.toList m.words.toList)

/-- One step of a product: `(d + a * b) / 2 ^ 32` modulo `n`. -/
def multiplyAdd (d : Number) (a : Word) (b : Number) : Number :=
  let q := (a * b.getD 0 + d.getD 0) * m.inverse
  let all := accumulate a.toUInt64 q.toUInt64 0 0 b.toList d.toList m.words.toList
  let sum : Number := .ofList 96 (all.drop 1)
  if all.getD 97 0 = 0 then sum else m.subtractOnce sum

-- `a * b / R` modulo `n`, below `R`.
def multiply (a b : Number) : Number := a.toList.foldl (fun d w => m.multiplyAdd d w b) (.zero 96)

/-- `a / R` modulo `n`, below `n`: the product with one, and one last reduction. -/
def reduce (a : Number) : Number :=
  let d := (1 :: List.replicate 95 0).foldl (fun d w => m.multiplyAdd d w a) (.zero 96)
  if atLeast d.toList.reverse m.words.toList.reverse then m.subtractOnce d else d

end Modulus

end SignedFlash
