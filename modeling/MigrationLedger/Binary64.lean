import MigrationLedger.Digits

/-! Binary floating point numbers of 53 bits, held as exact scaled integers, with correct rounding
from decimals and the shortest decimal that reads back as the same number. -/

namespace MigrationLedger

/-- A finite number is `mantissa * 2 ^ exponent`, in lowest form: the mantissa has 53 bits unless
the exponent is the least one. -/
inductive Binary64 where
  | finite (negative : Bool) (mantissa : Nat) (exponent : Int)
  | infinite (negative : Bool)
  deriving DecidableEq, Repr, Inhabited

namespace Binary64

def leastExponent : Int := -1074

def greatestExponent : Int := 971

/-- The quotient `p / q`, a half going to the even neighbour. -/
def roundDiv (p q : Nat) : Nat :=
  let a := p / q
  let twice := 2 * (p % q)
  if twice < q then a
  else if q < twice then a + 1
  else a + a % 2

/-- `num * 2 ^ shift` as a numerator and a denominator. -/
def scale (num : Nat) (shift : Int) : Nat × Nat :=
  (num * Nat.pow 2 shift.toNat, Nat.pow 2 (-shift).toNat)

/-- The number nearest to `num / den`, for a positive `den`. -/
def ofRatio (negative : Bool) (num den : Nat) : Binary64 :=
  if num = 0 then .finite negative 0 leastExponent
  else
    let guess : Int := (num.log2 : Int) - den.log2 - 52
    let fits (e : Int) : Bool := den * (scale 1 e).1 * Nat.pow 2 52 ≤ num * (scale 1 e).2
    let exact := if fits guess then guess else guess - 1
    let e := max exact leastExponent
    let (p, q) := scale num (-e)
    let m := roundDiv p (q * den)
    let (m, e) := if m = Nat.pow 2 53 then (Nat.pow 2 52, e + 1) else (m, e)
    if greatestExponent < e then .infinite negative else .finite negative m e

/-- The number nearest to `digits * 10 ^ power`. -/
def ofDecimal (negative : Bool) (digits : Nat) (power : Int) : Binary64 :=
  -- beyond these powers every value is infinite or zero, and the exact ratio would be huge
  if digits = 0 then .finite negative 0 leastExponent
  else if 400 < power then .infinite negative
  else if power + (digits.log2 : Int) < -1200 then .finite negative 0 leastExponent
  else ofRatio negative (digits * Nat.pow 10 power.toNat) (Nat.pow 10 (-power).toNat)

def ofNat (n : Nat) : Binary64 := ofRatio false n 1

def isFinite : Binary64 → Bool
  | .finite .. => true
  | .infinite _ => false

/-- Equality of values: the two zeros are equal. -/
def sameValue : Binary64 → Binary64 → Bool
  | .finite _ 0 _, .finite _ 0 _ => true
  | a, b => a == b

/-- The decimal exponent of the leading digit of `p / q`. -/
def leadingPower (p q : Nat) : Int :=
  if q ≤ p then (Nat.toDigits 10 (p / q)).length - 1
  else
    let j := (Nat.toDigits 10 (q / p)).length
    if q ≤ p * Nat.pow 10 (j - 1) then -((j : Int) - 1) else -(j : Int)

/-- `digits * 10 ^ power`, with no zero at the end of `digits`. -/
structure Shortest where
  digits : Nat
  power : Int
  deriving DecidableEq, Repr

def stripZeros (fuel : Nat) (d : Nat) (power : Int) : Shortest :=
  match fuel with
  | 0 => ⟨d, power⟩
  | fuel + 1 =>
    if d ≠ 0 ∧ d % 10 = 0 then stripZeros fuel (d / 10) (power + 1) else ⟨d, power⟩

/-- The decimal of at most `n` digits that lies in the rounding interval of `mantissa * 2 ^
exponent`, the nearer one of two. The ends of the interval belong to it when the mantissa is even.
-/
def decimalWithin (mantissa : Nat) (exponent : Int) (n : Nat) : Option Shortest :=
  let below :=
    if mantissa = Nat.pow 2 52 ∧ leastExponent < exponent then 4 * mantissa - 1
    else 4 * mantissa - 2
  let (v, den) := scale (4 * mantissa) (exponent - 2)
  let lo := (scale below (exponent - 2)).1
  let hi := (scale (4 * mantissa + 2) (exponent - 2)).1
  let power := leadingPower v den + 1 - n
  let (up, down) := (Nat.pow 10 power.toNat, Nat.pow 10 (-power).toNat)
  -- the grid point `a` stands for `a * up / down`, compared with `x / den`
  let point (a : Nat) : Nat := a * up * den
  let inside (a : Nat) : Bool :=
    if mantissa % 2 = 0 then lo * down ≤ point a && point a ≤ hi * down
    else lo * down < point a && point a < hi * down
  let a := v * down / (up * den)
  let gapBelow := v * down - point a
  let gapAbove := point (a + 1) - v * down
  match inside a && a != 0, inside (a + 1) with
  | true, false => some (stripZeros n a power)
  | false, true => some (stripZeros (n + 1) (a + 1) power)
  | true, true =>
    if gapBelow < gapAbove ∨ (gapBelow = gapAbove ∧ a % 2 = 0) then some (stripZeros n a power)
    else some (stripZeros (n + 1) (a + 1) power)
  | false, false => none

/-- The fewest digits that read back as `mantissa * 2 ^ exponent`; seventeen always suffice. -/
def shortest (mantissa : Nat) (exponent : Int) : Shortest :=
  ((List.range 17).findSome? fun i => decimalWithin mantissa exponent (i + 1)).getD ⟨mantissa, 0⟩

/-- How a decimal is written: positionally while the power of its leading digit lies between
`least` and `greatest`, and otherwise with a signed exponent of at least `exponentDigits` digits. -/
structure DecimalForm where
  least : Int
  greatest : Int
  exponentDigits : Nat

/-- A point always stands between digits, or else an exponent follows. -/
def DecimalForm.render (form : DecimalForm) (d : Shortest) : String :=
  let cs := (toString d.digits).toList
  let lead : Int := d.power + cs.length - 1
  if form.least ≤ lead ∧ lead ≤ form.greatest then
    if 0 ≤ d.power then String.ofList cs ++ "".pushn '0' d.power.toNat ++ ".0"
    else if 0 ≤ lead then
      String.ofList (cs.take (lead.toNat + 1)) ++ "." ++ String.ofList (cs.drop (lead.toNat + 1))
    else "0." ++ "".pushn '0' ((-lead).toNat - 1) ++ String.ofList cs
  else
    let fraction := cs.drop 1
    let point := if fraction.isEmpty then "" else "."
    let sign := if lead < 0 then "-" else "+"
    String.ofList (cs.take 1) ++ point ++ String.ofList fraction ++ "e" ++ sign ++
      zeroPadded form.exponentDigits lead.natAbs

def render (form : DecimalForm) : Binary64 → String
  | .finite negative m e =>
    (if negative then "-" else "") ++ (if m = 0 then "0.0" else form.render (shortest m e))
  | .infinite negative => if negative then "-inf" else "inf"

end Binary64

end MigrationLedger
