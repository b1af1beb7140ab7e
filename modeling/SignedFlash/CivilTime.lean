import SignedFlash.Text.Hex

/-!
# Civil time

Dates and times of the Gregorian calendar, for the timestamps of images. A year is counted from
March, so that a leap day comes last, and 400 years have 146097 days.
-/

namespace SignedFlash

-- A date and time of day in universal time.
structure CivilTime where
  year : Nat
  month : Nat
  day : Nat
  hour : Nat
  minute : Nat
  second : Nat
  deriving DecidableEq

namespace CivilTime

/-- The year, month and day that a number of days after the first of January 1970 are. -/
def dateOfDays (days : Nat) : Nat × Nat × Nat :=
  -- day zero is the first of March of the year zero
  let z := days + 719468
  let era := z / 146097
  let dayOfEra := z % 146097
  let yearOfEra :=
    (dayOfEra - dayOfEra / 1460 + dayOfEra / 36524 - dayOfEra / 146096) / 365
  let dayOfYear := dayOfEra - (365 * yearOfEra + yearOfEra / 4 - yearOfEra / 100)
  let monthFromMarch := (5 * dayOfYear + 2) / 153
  let day := dayOfYear - (153 * monthFromMarch + 2) / 5 + 1
  let month := if monthFromMarch < 10 then monthFromMarch + 3 else monthFromMarch - 9
  let year := yearOfEra + 400 * era + (if month ≤ 2 then 1 else 0)
  (year, month, day)

-- The date and time a number of seconds after the start of 1970.
def ofSeconds (seconds : Nat) : CivilTime :=
  let (year, month, day) := dateOfDays (seconds / 86400)
  let time := seconds % 86400
  ⟨year, month, day, time / 3600, time / 60 % 60, time % 60⟩

-- The last year that is written as a date.
def lastYear : Nat := 262142

/-- The text of a time. Years have four digits; those that need more have a sign too. -/
def text (t : CivilTime) : String :=
  let year := if t.year < 10000 then Text.decimal 4 t.year else "+" ++ Text.decimal 4 t.year
  year ++ "-" ++ Text.decimal 2 t.month ++ "-" ++ Text.decimal 2 t.day ++ " " ++
    Text.decimal 2 t.hour ++ ":" ++ Text.decimal 2 t.minute ++ ":" ++ Text.decimal 2 t.second ++
    " UTC"

end CivilTime

/-- The text of a timestamp: a date and time or, for years out of reach, the number itself. -/
def timestampText (seconds : UInt64) : String :=
  let t := CivilTime.ofSeconds seconds.toNat
  if t.year ≤ CivilTime.lastYear then t.text else Text.hexNumber seconds.toNat

end SignedFlash
