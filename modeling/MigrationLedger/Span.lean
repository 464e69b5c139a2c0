/-! Lengths of time in whole nanoseconds. Arithmetic that the clocks do with them has a bound:
`greatest` is the longest representable span, and a product beyond it does not exist. -/

namespace MigrationLedger

structure Span where
  nanos : Nat
  deriving DecidableEq, Repr, Inhabited

namespace Span

def zero : Span := ⟨0⟩

def nanosPerMilli : Nat := 1000000

def nanosPerSecond : Nat := 1000000000

def ofMillis (n : Nat) : Span := ⟨n * nanosPerMilli⟩

def ofSeconds (n : Nat) : Span := ⟨n * nanosPerSecond⟩

def seconds (s : Span) : Nat := s.nanos / nanosPerSecond

def subsecond (s : Span) : Nat := s.nanos % nanosPerSecond

/-- Whole milliseconds, a part of one counting as one. -/
def millisUp (s : Span) : Nat := (s.nanos + (nanosPerMilli - 1)) / nanosPerMilli

def millisDown (s : Span) : Nat := s.nanos / nanosPerMilli

/-- Seconds fill a word of 64 bits, beside the nanoseconds of the last one. -/
def greatest : Span := ⟨Nat.pow 2 64 * nanosPerSecond - 1⟩

instance : LE Span := ⟨fun a b => a.nanos ≤ b.nanos⟩

instance : LT Span := ⟨fun a b => a.nanos < b.nanos⟩

instance (a b : Span) : Decidable (a ≤ b) := inferInstanceAs (Decidable (a.nanos ≤ b.nanos))

instance (a b : Span) : Decidable (a < b) := inferInstanceAs (Decidable (a.nanos < b.nanos))

def max (a b : Span) : Span := ⟨Nat.max a.nanos b.nanos⟩

def min (a b : Span) : Span := ⟨Nat.min a.nanos b.nanos⟩

def add (a b : Span) : Span := ⟨a.nanos + b.nanos⟩

/-- The difference, or zero. -/
def sub (a b : Span) : Span := ⟨a.nanos - b.nanos⟩

def times (s : Span) (n : Nat) : Span := ⟨s.nanos * n⟩

/-- The product, unless it is longer than any span. -/
def times? (s : Span) (n : Nat) : Option Span :=
  if s.nanos * n ≤ greatest.nanos then some (s.times n) else none

def dividedBy (s : Span) (n : Nat) : Span := ⟨s.nanos / n⟩

/-- The nanoseconds as far as a word of 64 bits holds them. -/
def nanosWord (s : Span) : Nat := s.nanos % Nat.pow 2 64

def dropZeros : List Char → List Char
  | [] => []
  | c :: cs =>
    match dropZeros cs with
    | [] => if c = '0' then [] else [c]
    | rest => c :: rest

/-- `whole + part / 10 ^ places` without needless digits. -/
def decimalText (whole part places : Nat) : String :=
  let digits := (toString part).toList
  let padded := List.replicate (places - digits.length) '0' ++ digits
  match dropZeros padded with
  | [] => toString whole
  | ds => toString whole ++ "." ++ String.ofList ds

/-- The largest unit of which the span has at least one, with exact decimals. -/
def text (s : Span) : String :=
  if nanosPerSecond ≤ s.nanos then decimalText s.seconds s.subsecond 9 ++ "s"
  else if nanosPerMilli ≤ s.nanos then
    decimalText s.millisDown (s.nanos % nanosPerMilli) 6 ++ "ms"
  else if 1000 ≤ s.nanos then decimalText (s.nanos / 1000) (s.nanos % 1000) 3 ++ "µs"
  else toString s.nanos ++ "ns"

end Span

end MigrationLedger
