import SignedFlash.Proofs.Toml.Reading
import SignedFlash.Toml.Printer
import SignedFlash.Toml.Statement
import Mathlib.Algebra.Group.Nat.Defs

/-!
# Strings and whole numbers read back

Every string reads back from the text in quotes that is written for it, and every whole number of 64
bits from its decimal text. A number has no mark where it ends, so what follows must not go on with
it.
-/

namespace SignedFlash.Toml

open Reader

/-! ## Strings -/

theorem hexUpper_four : ∀ n < 0x80,
    (Text.hexUpper 4 n).toList.length = 4 ∧
      escapedChar? (Text.hexUpper 4 n).toList = some (Char.ofNat n) := by
  simp only [Text.hexUpper, String.toList_ofList]
  decide

-- An ASCII character that is written by its number.
theorem escapeCode_number {c : Char} (h : c.toNat < 0x80) (rest : List Char) :
    escapeCode ('u' :: ((Text.hexUpper 4 c.toNat).toList ++ rest)) = some (c, rest) := by
  obtain ⟨hlength, hchar⟩ := hexUpper_four c.toNat h
  match hdigits : (Text.hexUpper 4 c.toNat).toList, hlength with
  | [x, y, z, w], _ =>
    rw [hdigits, Char.ofNat_toNat] at hchar
    simp [escapeCode, hchar]

/-- A character of a string is read back, whether or not it is written as an escape sequence. -/
theorem basicChar_escaped (c : Char) (rest : List Char) :
    (satisfy isBasicChar <|> escapeSequence) ((escaped c).toList ++ rest) = some (c, rest) := by
  have hbackslash : isBasicChar '\\' = false := by decide
  unfold escaped
  -- first the seven characters that have a letter of their own
  iterate 7
    split
    case isTrue h => simp [h, hbackslash, escapeSequence, escapeCode]
  rename_i hquote hslash _ _ _ _ _
  split
  case isTrue hcontrol =>
    have hnumber := escapeCode_number (c := c) (by omega) rest
    simp [hbackslash, escapeSequence, hnumber]
  case isFalse hcontrol =>
    have hbasic : isBasicChar c = true := by
      simp [isBasicChar, isCommentChar, isNonAscii, hquote, hslash]
      omega
    simp [hbasic, Char.toString]

-- What is written for a character starts with no quote.
theorem exists_escaped_eq_cons (c : Char) :
    ∃ first tail, (escaped c).toList = first :: tail ∧ first ≠ '\x22' := by
  unfold escaped
  iterate 8
    split
    case isTrue => exact ⟨'\\', by simp⟩
  case isFalse hquote _ _ _ _ _ _ _ => exact ⟨c, [], by simp [Char.toString, hquote]⟩

theorem takesAll_escaped (chars rest : List Char) :
    TakesAll (satisfy isBasicChar <|> escapeSequence)
      ((chars.flatMap fun c => (escaped c).toList) ++ '\x22' :: rest) chars ('\x22' :: rest) := by
  induction chars with
  | nil =>
    have hquote : isBasicChar '\x22' = false := by decide
    exact .stop (by simp [hquote, escapeSequence])
  | cons c chars ih =>
    obtain ⟨first, tail, hescaped, -⟩ := exists_escaped_eq_cons c
    rw [List.flatMap_cons, List.append_assoc]
    apply TakesAll.take (basicChar_escaped c _) _ ih
    simp only [hescaped, List.cons_append, List.length_cons, List.length_append]
    omega

theorem toList_quoted (s : String) :
    (quoted s).toList = '\x22' :: ((s.toList.flatMap fun c => (escaped c).toList) ++ ['\x22']) := by
  simp [quoted, List.flatMap, Function.comp_def]

theorem basicString_quoted (s : String) (rest : List Char) :
    basicString ((quoted s).toList ++ rest) = some (s, rest) := by
  have hmany := many_of_takesAll (takesAll_escaped s.toList rest)
  simp [toList_quoted, basicString, hmany]

/-- A string reads back from its text in quotes, unless one more quote follows. -/
theorem anyString_quoted (s : String) {rest : List Char} (hrest : Stops (· == '\x22') rest) :
    anyString ((quoted s).toList ++ rest) = some (s, rest) := by
  have hbasic := basicString_quoted s rest
  have hone : ((quoted s).toList ++ rest).take 3 ≠ ['\x22', '\x22', '\x22'] := by
    rw [toList_quoted]
    cases s.toList with
    | nil => cases rest <;> simp_all [stops_cons]
    | cons c chars =>
      obtain ⟨first, tail, hescaped, hfirst⟩ := exists_escaped_eq_cons c
      simp [hescaped, hfirst]
  have hother : ((quoted s).toList ++ rest).take 3 ≠ ['\x27', '\x27', '\x27'] := by
    simp [toList_quoted]
  simp [anyString, hone, hother, hbasic]

/-! ## Whole numbers -/

-- What comes after a value: a comma, the end of an array or the end of the line.
def valueEnds : List Char := [',', ']', '\n']

/-- Whether a text goes on as it may after a value. -/
def FollowsValue (text : List Char) : Prop := ∃ c ∈ valueEnds, ∃ rest, text = c :: rest

theorem followsValue_cons {c : Char} (h : c ∈ valueEnds) (rest : List Char) :
    FollowsValue (c :: rest) := ⟨c, h, rest, rfl⟩

theorem FollowsValue.stops {text : List Char} (h : FollowsValue text) (p : Char → Bool)
    (hp : valueEnds.any p = false := by decide) : Stops p text := by
  obtain ⟨c, hc, rest, rfl⟩ := h
  exact stops_cons.mpr (by simpa using List.any_eq_false.mp hp c hc)

variable {rest : List Char}

theorem isDigit_of_mem_decimal {n : Nat} {c : Char} (h : c ∈ Nat.toDigits 10 n) :
    c.isDigit = true := Nat.isDigit_of_mem_toDigits (by decide) (by decide) h

-- A number starts with a digit, which is zero for no number but zero.
theorem exists_decimal_eq_cons (n : Nat) :
    ∃ first tail, Nat.toDigits 10 n = first :: tail ∧ first.isDigit = true ∧
      (first = '0' → n = 0) := by
  induction n using Nat.strongRecOn with
  | ind n ih =>
    by_cases hsmall : n < 10
    · have hdecimal : Nat.toDigits 10 n = [Nat.digitChar n] := Nat.toDigits_of_lt_base hsmall
      have hdigit : (Nat.digitChar n).isDigit = true :=
        isDigit_of_mem_decimal (hdecimal ▸ List.mem_cons_self)
      exact ⟨Nat.digitChar n, [], hdecimal, hdigit, Nat.digitChar_eq_zero.mp⟩
    · obtain ⟨first, tail, hfront, hdigit, hfirst⟩ := ih (n / 10) (by omega)
      rw [Nat.toDigits_of_base_le (by decide) (by omega), hfront]
      exact ⟨first, _, rfl, hdigit, fun hzero => by have := hfirst hzero; omega⟩

theorem wholeDigits_decimal (n : Nat) (hrest : FollowsValue rest) :
    wholeDigits (Nat.toDigits 10 n ++ rest) = some (Nat.toDigits 10 n, rest) := by
  by_cases hzero : n = 0
  · simp [hzero, wholeDigits]
  · obtain ⟨first, tail, hdecimal, -, hfirst⟩ := exists_decimal_eq_cons n
    have hgroup : takeWhile1 Char.isDigit (Nat.toDigits 10 n ++ rest) =
        some (Nat.toDigits 10 n, rest) :=
      takeWhile1_append Nat.toDigits_ne_nil (fun c hc => isDigit_of_mem_decimal hc)
        (hrest.stops Char.isDigit)
    have hno_more : (do char '_'; takeWhile1 Char.isDigit : Reader (List Char)) rest = none := by
      simp [char_of_stops (hrest.stops (· == '_'))]
    have hdigits := separated1_of_takesAll hgroup (.stop hno_more)
    have hplain : first ≠ '0' := fun h => hzero (hfirst h)
    rw [hdecimal] at hdigits ⊢
    simp only [List.cons_append] at hdigits ⊢
    simp [wholeDigits, digits, hplain, hdigits]

theorem bounded_of_not_isDigit {c : Char} (hc : c.isDigit = false) (count least greatest : Nat)
    (tail : List Char) : bounded (count + 1) least greatest (c :: tail) = none := by
  simp [bounded, exactly, hc]

-- A number is no date and no time, since no mark of one follows any of its digits.
theorem bounded_decimal {n count least greatest : Nat} {mark : Char} (hmark : mark.isDigit = false)
    (hother : valueEnds.any (· == mark) = false) (hrest : FollowsValue rest)
    {α : Type} (next : List Char → Reader α) :
    (do let taken ← bounded count least greatest; char mark; next taken : Reader α)
      (Nat.toDigits 10 n ++ rest) = none := by
  cases hexactly : exactly Char.isDigit count (Nat.toDigits 10 n ++ rest) with
  | none => simp [bounded, hexactly]
  | some result =>
    have hleft : Stops (· == mark) result.2 :=
      stops_of_exactly hmark (fun c hc => isDigit_of_mem_decimal hc) (hrest.stops Char.isDigit)
        (hrest.stops (· == mark) hother) hexactly
    by_cases hbounds : least ≤ numberOfDigits 10 result.1 ∧ numberOfDigits 10 result.1 ≤ greatest
    · simp [bounded, hexactly, hbounds, char_of_stops hleft]
    · simp [bounded, hexactly, hbounds]

theorem datetime_of_none {text : List Char} (hdate : date text = none)
    (htime : timeOfDay text = none) : datetime text = none := by
  simp [datetime, datetime.withDate, hdate, htime]

theorem datetime_decimal (n : Nat) (hrest : FollowsValue rest) :
    datetime (Nat.toDigits 10 n ++ rest) = none := by
  have hdate : date (Nat.toDigits 10 n ++ rest) = none :=
    bounded_decimal (by decide) (by decide) hrest _
  have htime : timeOfDay (Nat.toDigits 10 n ++ rest) = none :=
    bounded_decimal (by decide) (by decide) hrest _
  exact datetime_of_none hdate htime

theorem numberOfDigits_decimal (n : Nat) : numberOfDigits 10 (Nat.toDigits 10 n) = n := by
  have hvalue : ∀ m : Nat, ∀ c ∈ Nat.toDigits 10 n,
      10 * m + digitValue c = 10 * m + (c.toNat - 48) := by
    intro m c hc
    simp [digitValue, isDigit_of_mem_decimal hc]
  calc numberOfDigits 10 (Nat.toDigits 10 n)
      = Nat.ofDigitChars 10 (Nat.toDigits 10 n) 0 := List.foldl_ext _ _ 0 hvalue
    _ = n := Nat.ofDigitChars_ten_toDigits

theorem smallNumber?_decimal {n : Nat} (h : n < 10 ^ 64) :
    smallNumber? 10 (Nat.toDigits 10 n) = some n := by
  by_cases hzero : n = 0
  · simp [hzero, smallNumber?, numberOfDigits]
  · obtain ⟨first, tail, hdecimal, -, hfirst⟩ := exists_decimal_eq_cons n
    have hplain : first ≠ '0' := fun h => hzero (hfirst h)
    have hsignificant : (Nat.toDigits 10 n).dropWhile (· == '0') = Nat.toDigits 10 n := by
      simp [hdecimal, hplain]
    have hlength : (Nat.toDigits 10 n).length ≤ 64 :=
      (Nat.length_toDigits_le_iff (by decide) (by decide)).mpr h
    simp [smallNumber?, hsignificant, hlength, numberOfDigits_decimal]

/-! The text of a number is its sign and its digits. -/

-- The sign that is written in front of a number.
def signOf (i : Int) : Option Char := if i < 0 then some '-' else none

def signedDecimal (i : Int) : List Char := (signOf i).toList ++ Nat.toDigits 10 i.natAbs

theorem toList_toString_int (i : Int) : (toString i).toList = signedDecimal i := by
  cases i with
  | ofNat n =>
    show (toString n).toList = _
    simp [signedDecimal, signOf]
  | negSucc n =>
    show ("-" ++ toString (n + 1)).toList = _
    simp [signedDecimal, signOf]

theorem signedDecimal_of_neg {i : Int} (h : i < 0) :
    signedDecimal i = '-' :: Nat.toDigits 10 i.natAbs := by
  simp [signedDecimal, signOf, h]

theorem signedDecimal_of_nonneg {i : Int} (h : ¬i < 0) :
    signedDecimal i = Nat.toDigits 10 i.natAbs := by
  simp [signedDecimal, signOf, h]

-- The characters that a number may start with.
def startsNumber (c : Char) : Bool := c == '-' || c.isDigit

theorem exists_signedDecimal_eq_cons (i : Int) :
    ∃ first tail, signedDecimal i = first :: tail ∧ startsNumber first = true := by
  by_cases hi : i < 0
  · exact ⟨'-', _, signedDecimal_of_neg hi, rfl⟩
  · obtain ⟨first, tail, hdecimal, hdigit, -⟩ := exists_decimal_eq_cons i.natAbs
    rw [signedDecimal_of_nonneg hi]
    exact ⟨first, tail, hdecimal, by simp [startsNumber, hdigit]⟩

theorem sign_signedDecimal (i : Int) (rest : List Char) :
    sign (signedDecimal i ++ rest) = some (signOf i, Nat.toDigits 10 i.natAbs ++ rest) := by
  by_cases hi : i < 0
  · simp [signedDecimal_of_neg hi, signOf, hi, sign, optional?]
  · obtain ⟨first, tail, hdecimal, hdigit, -⟩ := exists_decimal_eq_cons i.natAbs
    have hplus : first ≠ '+' := fun h => by simp [h] at hdigit
    have hminus : first ≠ '-' := fun h => by simp [h] at hdigit
    simp [signedDecimal_of_nonneg hi, signOf, hi, sign, optional?, hdecimal, hplus, hminus]

theorem datetime_signedDecimal (i : Int) (hrest : FollowsValue rest) :
    datetime (signedDecimal i ++ rest) = none := by
  by_cases hi : i < 0
  · have hbounded := bounded_of_not_isDigit (c := '-') (by decide)
    rw [signedDecimal_of_neg hi, List.cons_append]
    exact datetime_of_none (by simp [date, hbounded]) (by simp [timeOfDay, hbounded])
  · rw [signedDecimal_of_nonneg hi]
    exact datetime_decimal i.natAbs hrest

theorem float_signedDecimal (i : Int) (hrest : FollowsValue rest) :
    float (signedDecimal i ++ rest) = none := by
  have hsign := sign_signedDecimal i rest
  have hwhole := wholeDigits_decimal i.natAbs hrest
  have hpoint : char '.' rest = none := char_of_stops (hrest.stops (· == '.'))
  have hexponent : exponentPart rest = none := by
    simp [exponentPart, satisfy_of_stops (hrest.stops fun c => c == 'e' || c == 'E')]
  have hfinite : finiteFloat (signedDecimal i ++ rest) = none := by
    simp [finiteFloat, hsign, hwhole, optional?, hpoint, hexponent]
  have hspecial : specialFloat (signedDecimal i ++ rest) = none := by
    obtain ⟨first, tail, hdecimal, hdigit, -⟩ := exists_decimal_eq_cons i.natAbs
    have hi : first ≠ 'i' := fun h => by simp [h] at hdigit
    have hn : first ≠ 'n' := fun h => by simp [h] at hdigit
    have hinf := literal_of_ne (s := "inf") rfl hi (tail ++ rest)
    have hnan := literal_of_ne (s := "nan") rfl hn (tail ++ rest)
    simp [specialFloat, hsign, hdecimal, hinf, hnan]
  simp [float, hfinite, hspecial]

-- A number in decimal carries no mark of another base.
theorem markedInteger_signedDecimal (i : Int) (hrest : FollowsValue rest) (mark : String)
    {letter : Char} (hmark : mark.toList = ['0', letter])
    (hother : valueEnds.any (· == letter) = false) (base : Nat) (p : Char → Bool) :
    markedInteger mark base p (signedDecimal i ++ rest) = none := by
  have hliteral : literal mark (signedDecimal i ++ rest) = none := by
    by_cases hi : i < 0
    · rw [signedDecimal_of_neg hi]
      exact literal_of_ne hmark (by decide) _
    · obtain ⟨first, tail, hdecimal, -, hfirst⟩ := exists_decimal_eq_cons i.natAbs
      by_cases hzero : first = '0'
      · have hdigits : Nat.toDigits 10 i.natAbs = ['0'] := by simp [hfirst hzero]
        have hletter : char letter rest = none := char_of_stops (hrest.stops (· == letter) hother)
        simp [literal, hmark, signedDecimal_of_nonneg hi, hdigits, hletter]
      · rw [signedDecimal_of_nonneg hi, hdecimal]
        exact literal_of_ne hmark hzero _
  simp [markedInteger, hliteral]

theorem decimalInteger_signedDecimal {i : Int} (hsmall : i.natAbs < 10 ^ 64)
    (hrest : FollowsValue rest) : decimalInteger (signedDecimal i ++ rest) = some (i, rest) := by
  have hsign := sign_signedDecimal i rest
  have hwhole := wholeDigits_decimal i.natAbs hrest
  have hvalue := smallNumber?_decimal hsmall
  have hi : (if signOf i = some '-' then -(i.natAbs : Int) else i.natAbs) = i := by
    unfold signOf
    by_cases hneg : i < 0 <;> simp only [hneg, if_true, if_false, reduceCtorEq] <;> omega
  generalize i.natAbs = n at hsign hwhole hvalue hi
  simp [decimalInteger, hsign, hwhole, hvalue, hi]

/-- A whole number of 64 bits reads back from its decimal text. -/
theorem integer_signedDecimal {i : Int}
    (hi : -0x8000000000000000 ≤ i ∧ i < 0x8000000000000000) (hrest : FollowsValue rest) :
    integer (signedDecimal i ++ rest) = some (i, rest) := by
  have hhexadecimal := markedInteger_signedDecimal i hrest "0x" rfl
    (by decide) 16 isHexDigit
  have hoctal := markedInteger_signedDecimal i hrest "0o" rfl
    (by decide) 8 isOctalDigit
  have hbinary := markedInteger_signedDecimal i hrest "0b" rfl
    (by decide) 2 isBinaryDigit
  have hdecimal := decimalInteger_signedDecimal (i := i) (by omega) hrest
  simp [integer, hhexadecimal, hoctal, hbinary, hdecimal, hi]

end SignedFlash.Toml
