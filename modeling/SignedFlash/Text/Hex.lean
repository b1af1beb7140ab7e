import SignedFlash.Words

/-!
# Hexadecimal text

Numbers with a least count of digits, and byte strings with two digits a byte.
-/

namespace SignedFlash.Text

-- Pads a text on the left with zeros up to a width.
def zeroPad (width : Nat) (digits : List Char) : List Char :=
  List.replicate (width - digits.length) '0' ++ digits

-- A number in lower case hexadecimal, with at least `width` digits.
def hex (width n : Nat) : String := String.ofList (zeroPad width (Nat.toDigits 16 n))

-- A number in upper case hexadecimal, with at least `width` digits.
def hexUpper (width n : Nat) : String :=
  String.ofList (zeroPad width ((Nat.toDigits 16 n).map Char.toUpper))

-- A number in decimal, with at least `width` digits.
def decimal (width n : Nat) : String := String.ofList (zeroPad width (Nat.toDigits 10 n))

-- An offset or size: `0x` and as many digits as it needs.
def hexNumber (n : Nat) : String := "0x" ++ hex 1 n

def hexWord (w : Word) : String := "0x" ++ hex 8 w.toNat

-- Words as eight digits each, joined by a separator.
def hexWords (separator : String) (ws : List Word) : String :=
  separator.intercalate (ws.map fun w => hex 8 w.toNat)

def hexBytes (bs : Bytes) : String := String.join (bs.map fun b => hex 2 b.toNat)

end SignedFlash.Text
