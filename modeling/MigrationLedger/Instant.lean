import MigrationLedger.Span

/-! Instants of the wall clock, in the proleptic Gregorian calendar of a limited range of years. A
leap second is the second before it with a billion nanoseconds more. -/

namespace MigrationLedger

/-- `nanos` reaches two billion: from one billion on, the instant lies in the leap second after
`seconds`. -/
structure Instant where
  seconds : Int
  nanos : Nat
  deriving DecidableEq, Repr, Inhabited

structure CalendarDate where
  year : Int
  month : Nat
  day : Nat
  deriving DecidableEq, Repr

namespace CalendarDate

def isLeapYear (year : Int) : Bool := year % 4 = 0 && (year % 100 ≠ 0 || year % 400 = 0)

def daysInMonth (year : Int) (month : Nat) : Nat :=
  if month = 2 then (if isLeapYear year then 29 else 28)
  else if month = 4 ∨ month = 6 ∨ month = 9 ∨ month = 11 then 30
  else 31

def leastYear : Int := -262143

def greatestYear : Int := 262142

def isValid (d : CalendarDate) : Bool :=
  leastYear ≤ d.year && d.year ≤ greatestYear && 1 ≤ d.month && d.month ≤ 12 &&
    1 ≤ d.day && d.day ≤ daysInMonth d.year d.month

/-- Days since 1970-01-01. Years are counted from March, so that a leap day ends its year. -/
def dayNumber (d : CalendarDate) : Int :=
  let y := if d.month ≤ 2 then d.year - 1 else d.year
  let era := y / 400
  let yearOfEra := y - era * 400
  let monthFromMarch : Int := (d.month + 9) % 12
  let dayOfYear := (153 * monthFromMarch + 2) / 5 + d.day - 1
  let dayOfEra := yearOfEra * 365 + yearOfEra / 4 - yearOfEra / 100 + dayOfYear
  era * 146097 + dayOfEra - 719468

def ofDayNumber (n : Int) : CalendarDate :=
  let z := n + 719468
  let era := z / 146097
  let dayOfEra := z - era * 146097
  let yearOfEra := (dayOfEra - dayOfEra / 1460 + dayOfEra / 36524 - dayOfEra / 146096) / 365
  let dayOfYear := dayOfEra - (365 * yearOfEra + yearOfEra / 4 - yearOfEra / 100)
  let monthFromMarch := (5 * dayOfYear + 2) / 153
  let day := dayOfYear - (153 * monthFromMarch + 2) / 5 + 1
  let month := if monthFromMarch < 10 then monthFromMarch + 3 else monthFromMarch - 9
  let year := yearOfEra + era * 400
  ⟨if month ≤ 2 then year + 1 else year, month.toNat, day.toNat⟩

end CalendarDate

namespace Instant

def secondsPerDay : Int := 86400

def billion : Nat := 1000000000

/-- The first second of the calendar. -/
def leastSecond : Int := CalendarDate.dayNumber ⟨CalendarDate.leastYear, 1, 1⟩ * secondsPerDay

/-- The second after the last of the calendar. -/
def secondLimit : Int :=
  CalendarDate.dayNumber ⟨CalendarDate.greatestYear + 1, 1, 1⟩ * secondsPerDay

/-- The last instant that no leap second follows. -/
def last : Instant := ⟨secondLimit - 1, billion - 1⟩

def isInRange (i : Instant) : Bool := leastSecond ≤ i.seconds && i.seconds < secondLimit

instance : LT Instant :=
  ⟨fun a b => a.seconds < b.seconds ∨ a.seconds = b.seconds ∧ a.nanos < b.nanos⟩

instance : LE Instant :=
  ⟨fun a b => a.seconds < b.seconds ∨ a.seconds = b.seconds ∧ a.nanos ≤ b.nanos⟩

instance (a b : Instant) : Decidable (a < b) :=
  inferInstanceAs (Decidable (a.seconds < b.seconds ∨ a.seconds = b.seconds ∧ a.nanos < b.nanos))

instance (a b : Instant) : Decidable (a ≤ b) :=
  inferInstanceAs (Decidable (a.seconds < b.seconds ∨ a.seconds = b.seconds ∧ a.nanos ≤ b.nanos))

def dayOf (i : Instant) : Int := i.seconds / secondsPerDay

def secondOfDay (i : Instant) : Int := i.seconds % secondsPerDay

/-- Moves by a signed number of nanoseconds. Leaving a leap second drops it: what counts then is
the ordinary second that it extends. -/
def shift (i : Instant) (delta : Int) : Instant :=
  let wholeSeconds := delta.tdiv billion
  let part := delta.tmod billion
  if billion ≤ i.nanos ∧ wholeSeconds = 0 ∧ ¬(0 < part ∧ 2 * (billion : Int) ≤ i.nanos + part) then
    ⟨i.seconds, (i.nanos + part).toNat⟩
  else
    let (seconds, nanos) : Int × Int :=
      if i.nanos < billion then (i.seconds, i.nanos)
      else if wholeSeconds < 0 then (i.seconds + 1, i.nanos - billion)
      else (i.seconds, i.nanos - billion)
    let total := nanos + part
    ⟨seconds + wholeSeconds + total / billion, (total % billion).toNat⟩

/-- The greatest span that a signed difference of instants can hold, in milliseconds. -/
def greatestShift : Span := Span.ofMillis (Nat.pow 2 63 - 1)

/-- Moves forward; nothing when the span or the result is out of range. -/
def after? (i : Instant) (s : Span) : Option Instant :=
  if s ≤ greatestShift then
    let j := i.shift s.nanos
    if j.isInRange then some j else none
  else none

/-- Moves back; a span beyond `greatestShift` counts as that. -/
def before? (i : Instant) (s : Span) : Option Instant :=
  let j := i.shift (-(s.min greatestShift).nanos)
  if j.isInRange then some j else none

/-- `a - b` in nanoseconds. A leap second between the two counts when their times of day tell that
it does. -/
def sub (a b : Instant) : Int :=
  let seconds := a.secondOfDay - b.secondOfDay
  let leap : Int :=
    if b.secondOfDay < a.secondOfDay ∧ billion ≤ b.nanos then 1
    else if a.secondOfDay < b.secondOfDay ∧ billion ≤ a.nanos then -1
    else 0
  ((a.dayOf - b.dayOf) * secondsPerDay + seconds + leap) * billion + (a.nanos - b.nanos)

/-- How long after `b` the instant `a` comes, or zero. -/
def since (a b : Instant) : Span := ⟨(a.sub b).toNat⟩

end Instant

end MigrationLedger
