import SignedFlash.Toml.Reader

/-!
# The lexical grammar of TOML

White space, comments, strings, numbers, dates and times of TOML 1.0.
-/

namespace SignedFlash.Toml

open Reader

/-! ## Characters -/

def isBlank (c : Char) : Bool := c == ' ' || c == '\t'

def isNonAscii (c : Char) : Bool := 0x80 ≤ c.toNat

def isCommentChar (c : Char) : Bool :=
  c == '\t' || (0x20 ≤ c.toNat && c.toNat ≤ 0x7e) || isNonAscii c

-- A character that stands for itself in a basic string.
def isBasicChar (c : Char) : Bool := isCommentChar c && c != '\x22' && c != '\\'

-- A character that may stand in a literal string.
def isLiteralChar (c : Char) : Bool := isCommentChar c && c != '\x27'

def isBareKeyChar (c : Char) : Bool := c.isAlphanum || c == '_' || c == '-'

def isBinaryDigit (c : Char) : Bool := c == '0' || c == '1'

def isOctalDigit (c : Char) : Bool := '0' ≤ c && c ≤ '7'

def isHexDigit (c : Char) : Bool := c.isDigit || ('a' ≤ c && c ≤ 'f') || ('A' ≤ c && c ≤ 'F')

def digitValue (c : Char) : Nat :=
  if c.isDigit then c.toNat - 48
  else if 'a' ≤ c then c.toNat - 87
  else c.toNat - 55

def numberOfDigits (base : Nat) (digits : List Char) : Nat :=
  digits.foldl (fun n c => base * n + digitValue c) 0

/-! ## Space -/

def blanks : Reader Unit := do discard <| takeWhile isBlank

def newline : Reader Unit := char '\n' <|> literal "\r\n"

-- A comment, up to the end of its line.
def comment : Reader Unit := do
  char '#'
  discard <| takeWhile isCommentChar

-- Blanks, comments and line ends, if any. A comment ends with its line.
def space : Reader Unit := do
  discard <| many ((discard <| takeWhile1 isBlank) <|> newline <|> (do comment; newline))

/-- What may follow a statement on its line, and the end of the line or of the text. -/
def lineEnd : Reader Unit := do
  blanks
  discard <| optional? comment
  newline <|> endOfText

/-! ## Strings -/

-- The character with the given code in hexadecimal, if there is one.
def escapedChar? (digits : List Char) : Option Char :=
  if digits.all isHexDigit then
    let code := numberOfDigits 16 digits
    if code < 0xd800 ∨ (0xdfff < code ∧ code < 0x110000) then some (Char.ofNat code) else none
  else
    none

-- The character that an escape sequence stands for, after its backslash.
def escapeCode : Reader Char
  | 'b' :: rest => some ('\x08', rest)
  | 't' :: rest => some ('\t', rest)
  | 'n' :: rest => some ('\n', rest)
  | 'f' :: rest => some ('\x0c', rest)
  | 'r' :: rest => some ('\r', rest)
  | '\x22' :: rest => some ('\x22', rest)
  | '\\' :: rest => some ('\\', rest)
  | 'u' :: a :: b :: c :: d :: rest => (escapedChar? [a, b, c, d]).map fun e => (e, rest)
  | 'U' :: a :: b :: c :: d :: e :: f :: g :: h :: rest =>
    (escapedChar? [a, b, c, d, e, f, g, h]).map fun e => (e, rest)
  | _ => none

def escapeSequence : Reader Char := do
  char '\\'
  escapeCode

def basicString : Reader String := do
  char '\x22'
  let content ← many (satisfy isBasicChar <|> escapeSequence)
  char '\x22'
  return String.ofList content

def literalString : Reader String := do
  char '\x27'
  let content ← takeWhile isLiteralChar
  char '\x27'
  return String.ofList content

-- A line end inside a string, which counts as a line feed.
def lineFeed : Reader Char := do
  newline
  return '\n'

-- A quote that is not the first of three.
def loneQuote (quote : Char) : Reader Char := do
  guard ((← get).take 3 != [quote, quote, quote])
  char quote
  return quote

/-- The quotes that close a string of several lines, and the quotes in front of them that belong to
the string, two at most. -/
def closingQuotes (quote : Char) : Reader (List Char) := do
  let quotes := (← get).takeWhile (· == quote) |>.take 5
  guard (3 ≤ quotes.length)
  set ((← get).drop quotes.length)
  return quotes.drop 3

/-- A backslash at the end of a line, and what it skips: all up to the first character of a later
line that is not blank. -/
def lineContinuation : Reader (List Char) := do
  char '\\'
  blanks
  newline
  discard <| many ((discard <| takeWhile1 isBlank) <|> newline)
  return []

/-- A string in three quotes, with the parts that its content is made of. A line end right after the
quotes does not count. -/
def multilineString (quote : Char) (part : Reader (List Char)) : Reader String := do
  discard <| exactly (· == quote) 3
  discard <| optional? newline
  let parts ← many part
  let quotes ← closingQuotes quote
  return String.ofList (parts.flatten ++ quotes)

def multilineBasicString : Reader String :=
  multilineString '\x22' <| lineContinuation <|> List.singleton <$>
    (satisfy isBasicChar <|> escapeSequence <|> lineFeed <|> loneQuote '\x22')

def multilineLiteralString : Reader String :=
  multilineString '\x27' <| List.singleton <$>
    (satisfy isLiteralChar <|> lineFeed <|> loneQuote '\x27')

/-- A string of any kind. What starts with three quotes is a string of several lines. -/
def anyString : Reader String := fun text =>
  if text.take 3 = "\x22\x22\x22".toList then multilineBasicString text
  else if text.take 3 = "\x27\x27\x27".toList then multilineLiteralString text
  else (basicString <|> literalString) text

/-! ## Numbers -/

-- Digits, at least one, with single underscores between them.
def digits (isDigit : Char → Bool) : Reader (List Char) := do
  let groups ← separated1 '_' (takeWhile1 isDigit)
  return groups.flatten

def sign : Reader (Option Char) := optional? (satisfy fun c => c == '+' || c == '-')

/-- The number that digits spell, unless it has more than 64 digits, zeros in front aside. -/
def smallNumber? (base : Nat) (digits : List Char) : Option Nat :=
  let significant := digits.dropWhile (· == '0')
  if significant.length ≤ 64 then some (numberOfDigits base significant) else none

-- The digits of a whole number in decimal. No zero stands before another digit.
def wholeDigits : Reader (List Char) := do
  if (← peek?) == some '0' then do char '0'; pure ['0'] else digits Char.isDigit

-- A whole number in decimal with an optional sign.
def decimalInteger : Reader Int := do
  let sign ← sign
  let n : Int := ← smallNumber? 10 (← wholeDigits)
  return if sign = some '-' then -n else n

-- A whole number in the notation that a mark such as `0x` announces.
def markedInteger (mark : String) (base : Nat) (isDigit : Char → Bool) : Reader Int := do
  literal mark
  let n ← smallNumber? base (← digits isDigit)
  return n

def integer : Reader Int := do
  let i ← markedInteger "0x" 16 isHexDigit <|> markedInteger "0o" 8 isOctalDigit <|>
    markedInteger "0b" 2 isBinaryDigit <|> decimalInteger
  guard (-0x8000000000000000 ≤ i ∧ i < 0x8000000000000000)
  return i

/-- A number with a fraction, an exponent or both, as it is written but for underscores. -/
structure WrittenFloat where
  sign : Option Char
  whole : List Char
  fraction : List Char
  exponentSign : Option Char
  exponent : List Char

namespace WrittenFloat

-- From here on, an exponent is great enough to take no more digits.
def exponentBound : Nat := 65536

/-- The exponent as a number. Once it has reached the bound, further digits do not count. -/
def exponentValue (x : WrittenFloat) : Int :=
  let n : Nat :=
    x.exponent.foldl (fun n c => if n < exponentBound then 10 * n + digitValue c else n) 0
  if x.exponentSign = some '-' then -n else n

/-- Whether the number without its sign rounds to no finite number of double precision. The least
such number is whole and has 309 digits. -/
def overflowsDouble (x : WrittenFloat) : Bool :=
  let significant := (x.whole ++ x.fraction).dropWhile (· == '0')
  let size : Int := significant.length - x.fraction.length + x.exponentValue
  if significant.isEmpty || size < 309 then false
  else if 309 < size then true
  else
    (1 <<< 1024) - (1 <<< 970) ≤
      numberOfDigits 10 ((significant ++ List.replicate 309 '0').take 309)

def text (x : WrittenFloat) : String :=
  String.ofList <| x.sign.toList ++ x.whole ++
    (if x.fraction.isEmpty then [] else '.' :: x.fraction) ++
    (if x.exponent.isEmpty then [] else 'e' :: x.exponentSign.toList ++ x.exponent)

end WrittenFloat

-- The exponent of a number, with its mark: its sign and its digits.
def exponentPart : Reader (Option Char × List Char) := do
  discard <| satisfy fun c => c == 'e' || c == 'E'
  let sign ← sign
  return (sign, ← digits Char.isDigit)

/-- A number with a fraction, an exponent or both. One that is too great is refused. -/
def finiteFloat : Reader String := do
  let sign ← sign
  let whole ← wholeDigits
  let fraction ← optional? (do char '.'; digits Char.isDigit)
  let exponent ← match fraction with
    | some _ => optional? exponentPart
    | none => some <$> exponentPart
  let (exponentSign, exponent) := exponent.getD (none, [])
  let x : WrittenFloat := ⟨sign, whole, fraction.getD [], exponentSign, exponent⟩
  guard (sign = some '-' || !x.overflowsDouble)
  return x.text

def specialFloat : Reader String := do
  let sign ← sign
  let name ← (do literal "inf"; return "inf") <|> (do literal "nan"; return "nan")
  return String.ofList sign.toList ++ name

-- A number that is not whole, by its text.
def float : Reader String := finiteFloat <|> specialFloat

/-! ## Dates and times -/

-- The digits of a number of exactly `n` digits within bounds.
def bounded (n least greatest : Nat) : Reader (List Char) := do
  let digits ← exactly Char.isDigit n
  let value := numberOfDigits 10 digits
  guard (least ≤ value ∧ value ≤ greatest)
  return digits

def daysInMonth (year month : Nat) : Nat :=
  if month = 2 then
    if year % 4 = 0 ∧ (year % 100 ≠ 0 ∨ year % 400 = 0) then 29 else 28
  else if month = 4 ∨ month = 6 ∨ month = 9 ∨ month = 11 then 30
  else 31

def date : Reader (List Char) := do
  let year ← bounded 4 0 9999
  char '-'
  let month ← bounded 2 1 12
  char '-'
  let day ← bounded 2 1 (daysInMonth (numberOfDigits 10 year) (numberOfDigits 10 month))
  return year ++ '-' :: month ++ '-' :: day

-- A time of day, with an optional fraction of the second.
def timeOfDay : Reader (List Char) := do
  let hour ← bounded 2 0 23
  char ':'
  let minute ← bounded 2 0 59
  char ':'
  let second ← bounded 2 0 60
  let fraction ← optional? (do char '.'; return '.' :: (← takeWhile1 Char.isDigit))
  return hour ++ ':' :: minute ++ ':' :: second ++ fraction.getD []

-- Universal time, or the distance of a time from it.
def timeOffset : Reader (List Char) :=
  (do discard <| satisfy fun c => c == 'Z' || c == 'z'; return ['Z']) <|> do
    let sign ← satisfy fun c => c == '+' || c == '-'
    let hour ← bounded 2 0 23
    char ':'
    let minute ← bounded 2 0 59
    return sign :: hour ++ ':' :: minute

-- A date, a time or both, by its text.
def datetime : Reader String := String.ofList <$> (withDate <|> timeOfDay)
where
  withDate : Reader (List Char) := do
    let date ← date
    let time ← optional? do
      discard <| satisfy fun c => c == 'T' || c == 't' || c == ' '
      let time ← timeOfDay
      let offset ← optional? timeOffset
      return 'T' :: time ++ offset.getD []
    return date ++ time.getD []

end SignedFlash.Toml
