import MigrationLedger.Json

/-! Reading JSON text. A reader takes characters and gives a value with the characters left over.
Objects come out sorted, and of two fields with one name the later stands. -/

namespace MigrationLedger.Json

/-- How the digits of a number become a floating point number. -/
inductive Rounding where
  /-- The nearest number. -/
  | exact
  /-- The digits that fit into 64 bits are converted, and then scaled by a power of ten: two
  roundings, each to the nearest. -/
  | scaled
  deriving DecidableEq

def isBlank (c : Char) : Bool := c = ' ' || c = '\n' || c = '\t' || c = '\r'

def skipBlanks (cs : List Char) : List Char := cs.dropWhile isBlank

def hexValue? (c : Char) : Option Nat :=
  if '0' ≤ c ∧ c ≤ '9' then some (c.toNat - '0'.toNat)
  else if 'a' ≤ c ∧ c ≤ 'f' then some (c.toNat - 'a'.toNat + 10)
  else if 'A' ≤ c ∧ c ≤ 'F' then some (c.toNat - 'A'.toNat + 10)
  else none

def readHex4 : List Char → Option (Nat × List Char)
  | a :: b :: c :: d :: rest => do
    let (a, b, c, d) := (← hexValue? a, ← hexValue? b, ← hexValue? c, ← hexValue? d)
    some (((a * 16 + b) * 16 + c) * 16 + d, rest)
  | _ => none

def simpleEscape? : Char → Option Char
  | '"' => some '"'
  | '\\' => some '\\'
  | '/' => some '/'
  | 'b' => some '\x08'
  | 'f' => some '\x0c'
  | 'n' => some '\n'
  | 'r' => some '\r'
  | 't' => some '\t'
  | _ => none

/-- The character of a `\u` escape, after the `u`. A leading surrogate needs its partner. -/
def readUnicode (cs : List Char) : Option (Char × List Char) := do
  let (n, rest) ← readHex4 cs
  if n < 0xD800 ∨ 0xDFFF < n then some (Char.ofNat n, rest)
  else if 0xDC00 ≤ n then none
  else match rest with
    | '\\' :: 'u' :: rest => do
      let (m, rest) ← readHex4 rest
      if m < 0xDC00 ∨ 0xDFFF < m then none
      else some (Char.ofNat (0x10000 + (n - 0xD800) * 0x400 + (m - 0xDC00)), rest)
    | _ => none

/-- The text up to the closing quote; `fuel` is at least the number of characters. -/
def readString : (fuel : Nat) → List Char → List Char → Option (String × List Char)
  | 0, _, _ => none
  | fuel + 1, seen, cs => match cs with
    | [] => none
    | '"' :: rest => some (String.ofList seen.reverse, rest)
    | '\\' :: 'u' :: rest => do
      let (c, rest) ← readUnicode rest
      readString fuel (c :: seen) rest
    | '\\' :: e :: rest => do
      let c ← simpleEscape? e
      readString fuel (c :: seen) rest
    | c :: rest => if c.toNat < 32 then none else readString fuel (c :: seen) rest

def greatestWord : Nat := Nat.pow 2 64 - 1

/-- The longest run of leading digits whose value fits a word: its value and the digits left out. -/
def wordDigits (value : Nat) : List Char → Nat × List Char
  | [] => (value, [])
  | c :: cs =>
    let next := 10 * value + digitValue c
    if greatestWord < next then (value, c :: cs) else wordDigits next cs

def scaleBy (negative : Bool) : Binary64 → Binary64 → (divide : Bool) → Binary64
  | .finite _ m e, .finite _ m' e', divide =>
    let (p, q) := if divide then Binary64.scale m (e - e') else Binary64.scale (m * m') (e + e')
    Binary64.ofRatio negative p (if divide then q * m' else q)
  | _, _, _ => .infinite negative

/-- Scales by powers of ten no greater than `10 ^ 308`, rounding at each step. -/
def scaleByTen (negative : Bool) : (fuel : Nat) → Binary64 → Int → Option Binary64
  | 0, _, _ => none
  | fuel + 1, x, power =>
    let ten (n : Nat) := Binary64.ofDecimal false 1 n
    if power.natAbs ≤ 308 then
      let y := scaleBy negative x (ten power.natAbs) (power < 0)
      if y.isFinite then some y else none
    else if x.sameValue (.finite false 0 Binary64.leastExponent) then some x
    else if 0 ≤ power then none
    else scaleByTen negative fuel (scaleBy negative x (ten 308) true) (power + 308)

/-- A number with a point, an exponent or too many digits, written as
`whole.fraction * 10 ^ power`. Too large a number is none. -/
def readFloat (how : Rounding) (negative : Bool) (whole fraction : List Char) (power : Int) :
    Option Binary64 :=
  match how with
  | .exact => some (.ofDecimal negative (digitsValue (whole ++ fraction)) (power - fraction.length))
  | .scaled =>
    let (w, more) := wordDigits 0 whole
    let (value, shift) := match more with
      | [] =>
        let (v, out) := wordDigits w fraction
        (v, -((fraction.length - out.length : Nat) : Int))
      | _ => (w, (more.length : Int))
    scaleByTen negative 400 (scaleBy negative (.ofNat value) (.ofNat 1) false) (power + shift)

/-- The fraction after a point: at least one digit. No point gives none. -/
def readFraction : List Char → Option (Option (List Char) × List Char)
  | '.' :: rest =>
    let (ds, rest) := splitDigits rest
    if ds.isEmpty then none else some (some ds, rest)
  | cs => some (none, cs)

def readExponent : List Char → Option (Option Int × List Char)
  | c :: rest =>
    if c = 'e' ∨ c = 'E' then
      let (negative, rest) := match rest with
        | '+' :: r => (false, r)
        | '-' :: r => (true, r)
        | r => (false, r)
      let (ds, rest) := splitDigits rest
      if ds.isEmpty then none
      else
        let n : Int := digitsValue ds
        some (some (if negative then -n else n), rest)
    else some (none, c :: rest)
  | [] => some (none, [])

/-- An integer of a word stays an integer, and so does a negative one of 63 bits, except that
`-0` is the negative zero. -/
def integer? (negative : Bool) (n : Nat) : Option Number :=
  if negative then
    if n = 0 ∨ Nat.pow 2 63 < n then none else some (.below (n - 1))
  else if greatestWord < n then none else some (.nat n)

def readNumber (how : Rounding) (cs : List Char) : Option (Number × List Char) := do
  let (negative, cs) := match cs with
    | '-' :: r => (true, r)
    | r => (false, r)
  let (whole, rest) := splitDigits cs
  if whole.isEmpty ∨ (1 < whole.length ∧ whole.head? = some '0') then none
  else
    let (fraction, rest) ← readFraction rest
    let (power, rest) ← readExponent rest
    let float := readFloat how negative whole (fraction.getD []) (power.getD 0)
    if fraction.isSome || power.isSome then return (.float (← float), rest)
    match integer? negative (digitsValue whole) with
    | some n => return (n, rest)
    | none => return (.float (← float), rest)

def readWord : List Char → List Char → Option (List Char)
  | [], rest => some rest
  | w :: ws, c :: cs => if w = c then readWord ws cs else none
  | _ :: _, [] => none

mutual

/-- A value, with at most `depth` arrays and objects inside one another. -/
def readValue (how : Rounding) : (fuel depth : Nat) → List Char → Option (Json × List Char)
  | 0, _, _ => none
  | fuel + 1, depth, cs => match skipBlanks cs with
    | '"' :: rest => do
      let (s, rest) ← readString (rest.length + 1) [] rest
      some (.str s, rest)
    | '[' :: rest =>
      if depth ≤ 1 then none
      else match skipBlanks rest with
        | ']' :: rest => some (.arr [], rest)
        | rest => readItems how fuel (depth - 1) [] rest
    | '{' :: rest =>
      if depth ≤ 1 then none
      else match skipBlanks rest with
        | '}' :: rest => some (.obj [], rest)
        | rest => readFields how fuel (depth - 1) [] rest
    | 'n' :: rest => (readWord "ull".toList rest).map (.null, ·)
    | 't' :: rest => (readWord "rue".toList rest).map (.bool true, ·)
    | 'f' :: rest => (readWord "alse".toList rest).map (.bool false, ·)
    | cs => (readNumber how cs).map fun (n, rest) => (.num n, rest)

def readItems (how : Rounding) : (fuel depth : Nat) → List Json → List Char →
    Option (Json × List Char)
  | 0, _, _, _ => none
  | fuel + 1, depth, seen, cs => do
    let (x, rest) ← readValue how fuel depth cs
    match skipBlanks rest with
    | ',' :: rest => readItems how fuel depth (x :: seen) rest
    | ']' :: rest => some (.arr (x :: seen).reverse, rest)
    | _ => none

def readFields (how : Rounding) : (fuel depth : Nat) → List (String × Json) → List Char →
    Option (Json × List Char)
  | 0, _, _, _ => none
  | fuel + 1, depth, seen, cs => match skipBlanks cs with
    | '"' :: rest => do
      let (key, rest) ← readString (rest.length + 1) [] rest
      match skipBlanks rest with
      | ':' :: rest => do
        let (x, rest) ← readValue how fuel depth rest
        match skipBlanks rest with
        | ',' :: rest => readFields how fuel depth (insertKey key x seen) rest
        | '}' :: rest => some (.obj (insertKey key x seen), rest)
        | _ => none
      | _ => none
    | _ => none

end

/-- The deepest nesting that is read, not counting the outermost value. -/
def nestingLimit : Nat := 128

def readWith (how : Rounding) (depth : Nat) (text : String) : Option Json := do
  let cs := text.toList
  let (j, rest) ← readValue how (2 * cs.length + 2) depth cs
  if (skipBlanks rest).isEmpty then some j else none

/-- Reads a text that is one value and nothing else. -/
def read (text : String) : Option Json := readWith .scaled nestingLimit text

end MigrationLedger.Json
