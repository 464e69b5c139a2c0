import MigrationLedger.Digits
import MigrationLedger.Instant

/-! Written forms of instants, all in universal time. Fractions have the fewest of 0, 3, 6 and 9
digits that are exact, and years outside 0 to 9999 have a sign and at least four digits. -/

namespace MigrationLedger.Instant

def yearText (year : Int) : String :=
  if 0 ≤ year ∧ year ≤ 9999 then zeroPadded 4 year.toNat
  else (if year < 0 then "-" else "+") ++ zeroPadded 4 year.natAbs

def dateText (i : Instant) : String :=
  let d := CalendarDate.ofDayNumber i.dayOf
  yearText d.year ++ "-" ++ zeroPadded 2 d.month ++ "-" ++ zeroPadded 2 d.day

/-- Hours, minutes and seconds; the leap second is the sixtieth. -/
def clockText (i : Instant) : String :=
  let s := i.secondOfDay.toNat
  let leap := if billion ≤ i.nanos then 1 else 0
  zeroPadded 2 (s / 3600) ++ ":" ++ zeroPadded 2 (s / 60 % 60) ++ ":" ++
    zeroPadded 2 (s % 60 + leap)

def fractionText (i : Instant) : String :=
  let n := i.nanos % billion
  if n = 0 then ""
  else if n % 1000000 = 0 then "." ++ zeroPadded 3 (n / 1000000)
  else if n % 1000 = 0 then "." ++ zeroPadded 6 (n / 1000)
  else "." ++ zeroPadded 9 n

/-- The stored form, such as `2021-05-01T10:00:00.500Z`. -/
def text (i : Instant) : String := i.dateText ++ "T" ++ i.clockText ++ i.fractionText ++ "Z"

/-- The form with a numeric offset, such as `2021-05-01T10:00:00+00:00`. -/
def offsetText (i : Instant) : String :=
  i.dateText ++ "T" ++ i.clockText ++ i.fractionText ++ "+00:00"

/-- The form of messages, such as `2021-05-01 10:00:00.500 UTC`. -/
def longText (i : Instant) : String := i.dateText ++ " " ++ i.clockText ++ i.fractionText ++ " UTC"

/-- The form of listings, to the second. -/
def shortText (i : Instant) : String := i.dateText ++ " " ++ i.clockText

end MigrationLedger.Instant
