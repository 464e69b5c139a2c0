import MigrationLedger.Digits
import MigrationLedger.Instant

/-! Reading instants from text: a date, a time of day and an offset from universal time, with blanks
allowed between the parts and numbers of fewer digits than usual. The first flaw is reported. -/

namespace MigrationLedger.Instant

inductive Flaw where
  | invalid
  | outOfRange
  | tooShort
  | tooLong
  | impossible
  deriving DecidableEq, Repr

def Flaw.message : Flaw → String
  | .invalid => "input contains invalid characters"
  | .outOfRange => "input is out of range"
  | .tooShort => "premature end of input"
  | .tooLong => "trailing input"
  | .impossible => "no possible date and time matching input"

/-- The characters with the Unicode property White_Space. -/
def isSpace (c : Char) : Bool :=
  let n := c.toNat
  (9 ≤ n && n ≤ 13) || n = 0x20 || n = 0x85 || n = 0xA0 || n = 0x1680 ||
    (0x2000 ≤ n && n ≤ 0x200A) || n = 0x2028 || n = 0x2029 || n = 0x202F || n = 0x205F || n = 0x3000

def skipSpaces (cs : List Char) : List Char := cs.dropWhile isSpace

/-- A run of at most `width` digits, and at least one, whose value fits 63 bits. -/
def scanNumber (width : Nat) (cs : List Char) : Except Flaw (Nat × List Char) :=
  match cs with
  | [] => .error .tooShort
  | c :: _ =>
    if !c.isDigit then .error .invalid
    else
      let digits := (cs.take width).takeWhile Char.isDigit
      let n := digitsValue digits
      if Nat.pow 2 63 ≤ n then .error .outOfRange else .ok (n, cs.drop digits.length)

def scanField (low high : Nat) (cs : List Char) : Except Flaw (Nat × List Char) := do
  let (n, rest) ← scanNumber 2 (skipSpaces cs)
  if low ≤ n ∧ n ≤ high then .ok (n, rest) else .error .outOfRange

/-- A year without a sign has at most four digits. -/
def scanYear (cs : List Char) : Except Flaw (Int × List Char) := do
  let (n, rest) : Int × List Char ← match skipSpaces cs with
    | '-' :: r => (scanNumber r.length r).map fun (n, rest) => (-(n : Int), rest)
    | '+' :: r => (scanNumber r.length r).map fun (n, rest) => ((n : Int), rest)
    | r => (scanNumber 4 r).map fun (n, rest) => ((n : Int), rest)
  if n < -2147483648 ∨ 2147483648 ≤ n then .error .outOfRange else .ok (n, rest)

def scanMark (mark : Char) (cs : List Char) : Except Flaw (Unit × List Char) :=
  match skipSpaces cs with
  | [] => .error .tooShort
  | c :: rest => if c = mark then .ok ((), rest) else .error .invalid

/-- Digits beyond the ninth are read and dropped. -/
def scanFraction : List Char → Except Flaw (Nat × List Char)
  | '.' :: rest => do
    let (n, after) ← scanNumber 9 rest
    let places := rest.length - after.length
    .ok (n * Nat.pow 10 (9 - places), after.dropWhile Char.isDigit)
  | cs => .ok (0, cs)

/-- The letter T, or else blanks, between the date and the time. -/
def scanSeparator : List Char → Except Flaw (Unit × List Char)
  | [] => .error .tooShort
  | c :: rest =>
    if c = 'T' ∨ c = 't' then .ok ((), rest)
    else if isSpace c then .ok ((), skipSpaces rest)
    else .error .invalid

def byteCount (cs : List Char) : Nat := cs.foldl (fun n c => n + c.utf8Size) 0

def scanTwoDigits (cs : List Char) : Except Flaw ((Char × Char) × List Char) :=
  if byteCount cs < 2 then .error .tooShort
  else match cs with
    | a :: b :: rest => if a.isDigit && b.isDigit then .ok ((a, b), rest) else .error .invalid
    | _ => .error .invalid

def pairValue (p : Char × Char) : Int :=
  (digitsValue [p.1, p.2] : Nat)

def isZoneMark (c : Char) : Bool := c = ':' || isSpace c

/-- Seconds east of universal time. -/
def scanOffset : List Char → Except Flaw (Int × List Char)
  | [] => .error .tooShort
  | c :: rest =>
    if c = 'Z' ∨ c = 'z' then .ok (0, rest)
    else if c = '+' ∨ c = '-' ∨ c = '\u2212' then do
      let (hours, rest) ← scanTwoDigits rest
      let (minutes, rest) ← scanTwoDigits (rest.dropWhile isZoneMark)
      if 60 ≤ pairValue minutes then .error .outOfRange
      let seconds := pairValue hours * 3600 + pairValue minutes * 60
      .ok (if c = '+' then seconds else -seconds, rest)
    else .error .invalid

def scanZone (cs : List Char) : Except Flaw (Int × List Char) :=
  match cs with
  | u :: t :: c :: rest =>
    if u.toLower = 'u' ∧ t.toLower = 't' ∧ c.toLower = 'c' then .ok (0, rest) else scanOffset cs
  | _ => scanOffset cs

/-- The instant of a local date and time with an offset. Second sixty is a leap second. -/
def ofLocal (date : CalendarDate) (hour minute second fraction : Nat) (offset : Int) :
    Except Flaw Instant :=
  let leap := second = 60
  let ofDay : Int := hour * 3600 + minute * 60 + (if leap then 59 else second)
  if ¬date.isValid ∨ 86400 ≤ offset.natAbs then .error .outOfRange
  else
    let i : Instant :=
      ⟨date.dayNumber * secondsPerDay + ofDay - offset, fraction + (if leap then billion else 0)⟩
    if i.isInRange then .ok i else .error .impossible

def readChars (cs : List Char) : Except Flaw Instant := do
  let (year, cs) ← scanYear cs
  let (_, cs) ← scanMark '-' cs
  let (month, cs) ← scanField 1 12 cs
  let (_, cs) ← scanMark '-' cs
  let (day, cs) ← scanField 1 31 cs
  let (_, cs) ← scanSeparator cs
  let (hour, cs) ← scanField 0 23 cs
  let (_, cs) ← scanMark ':' cs
  let (minute, cs) ← scanField 0 59 cs
  let (_, cs) ← scanMark ':' cs
  let (second, cs) ← scanField 0 60 cs
  let (fraction, cs) ← scanFraction cs
  let (offset, cs) ← scanZone (skipSpaces cs)
  if !(skipSpaces cs).isEmpty then .error .tooLong
  ofLocal ⟨year, month, day⟩ hour minute second fraction offset

def read (text : String) : Except Flaw Instant := readChars text.toList

end MigrationLedger.Instant
