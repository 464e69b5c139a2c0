import MigrationLedger.Binary64
import MigrationLedger.Json.Reader
import MigrationLedger.Toml

/-! Reading TOML text. A reader takes characters and gives what it read with the characters left
over; none is a flaw. -/

namespace MigrationLedger.Toml

def isBlank (c : Char) : Bool := c = ' ' || c = '\t'

def skipBlanks (cs : List Char) : List Char := cs.dropWhile isBlank

/-- Characters of comments and, but for quotes and backslashes, of text on one line. -/
def isPlain (c : Char) : Bool := c = '\t' || (0x20 ≤ c.toNat && c.toNat ≠ 0x7F)

def newline? : List Char → Option (List Char)
  | '\n' :: rest => some rest
  | '\r' :: '\n' :: rest => some rest
  | _ => none

def skipComment : List Char → List Char
  | '#' :: rest => rest.dropWhile isPlain
  | cs => cs

/-- Blanks and a comment up to the end of the line, and the line end. -/
def lineEnd? (cs : List Char) : Option (List Char) :=
  match skipComment (skipBlanks cs) with
  | [] => some []
  | cs => newline? cs

/-- Blanks, comments and line ends between the elements of an array. -/
def skipLines : (fuel : Nat) → List Char → List Char
  | 0, cs => cs
  | fuel + 1, cs =>
    let cs := skipComment (skipBlanks cs)
    match newline? cs with
    | some rest => skipLines fuel rest
    | none => cs

/-! ## Text -/

def readHex (digits : Nat) (cs : List Char) : Option (Char × List Char) := do
  let ds := cs.take digits
  if ds.length < digits then none
  else
    let n := (← ds.mapM Json.hexValue?).foldl (fun n d => 16 * n + d) 0
    if n < 0xD800 ∨ (0xDFFF < n ∧ n < 0x110000) then some (Char.ofNat n, cs.drop digits) else none

/-- The character of an escape, after the backslash. -/
def readEscape : List Char → Option (Char × List Char)
  | 'u' :: rest => readHex 4 rest
  | 'U' :: rest => readHex 8 rest
  | 'b' :: rest => some ('\x08', rest)
  | 't' :: rest => some ('\t', rest)
  | 'n' :: rest => some ('\n', rest)
  | 'f' :: rest => some ('\x0c', rest)
  | 'r' :: rest => some ('\r', rest)
  | '"' :: rest => some ('"', rest)
  | '\\' :: rest => some ('\\', rest)
  | _ => none

/-- Text on one line after its opening quote. Only text in double quotes has escapes. -/
def readLine (quote : Char) : (fuel : Nat) → List Char → List Char → Option (String × List Char)
  | 0, _, _ => none
  | fuel + 1, seen, cs => match cs with
    | [] => none
    | c :: rest =>
      if c = quote then some (String.ofList seen.reverse, rest)
      else if c = '\\' ∧ quote = '"' then do
        let (c, rest) ← readEscape rest
        readLine quote fuel (c :: seen) rest
      else if isPlain c then readLine quote fuel (c :: seen) rest
      else none

def skipBlankLines : List Char → List Char
  | ' ' :: rest | '\t' :: rest | '\n' :: rest | '\r' :: '\n' :: rest => skipBlankLines rest
  | cs => cs

/-- An escaped line end, after the backslash: it swallows the blanks and line ends that follow. -/
def skipEscapedEnd? (cs : List Char) : Option (List Char) :=
  (newline? (skipBlanks cs)).map skipBlankLines

/-- Text over several lines after its opening quotes. Of up to five quotes the last three close it.
-/
def readBlock (quote : Char) : (fuel : Nat) → List Char → List Char → Option (String × List Char)
  | 0, _, _ => none
  | fuel + 1, seen, cs => match cs with
    | [] => none
    | c :: rest =>
      if c = quote then
        let quotes := (cs.takeWhile (· = quote)).length
        let rest := cs.drop quotes
        if quotes < 3 then readBlock quote fuel (List.replicate quotes quote ++ seen) rest
        else if quotes ≤ 5 then
          some (String.ofList (List.replicate (quotes - 3) quote ++ seen).reverse, rest)
        else none
      else if c = '\\' ∧ quote = '"' then
        match skipEscapedEnd? rest with
        | some rest => readBlock quote fuel seen rest
        | none => do
          let (c, rest) ← readEscape rest
          readBlock quote fuel (c :: seen) rest
      else match newline? cs with
        | some rest => readBlock quote fuel ('\n' :: seen) rest
        | none => if isPlain c then readBlock quote fuel (c :: seen) rest else none

/-- Text after its first quote; a line end right after three quotes is dropped. -/
def readText (quote : Char) (rest : List Char) : Option (String × List Char) :=
  match rest with
  | a :: b :: more =>
    if a = quote ∧ b = quote then
      let more := (newline? more).getD more
      readBlock quote (more.length + 1) [] more
    else readLine quote (rest.length + 1) [] rest
  | _ => readLine quote (rest.length + 1) [] rest

/-! ## Keys -/

def isBareKeyChar (c : Char) : Bool := c.isAlphanum || c = '-' || c = '_'

def readSimpleKey : List Char → Option (String × List Char)
  | '"' :: rest => readLine '"' (rest.length + 1) [] rest
  | '\'' :: rest => readLine '\'' (rest.length + 1) [] rest
  | cs =>
    let name := cs.takeWhile isBareKeyChar
    if name.isEmpty then none else some (String.ofList name, cs.dropWhile isBareKeyChar)

/-- How many levels values, and the parts of a key, may be nested. -/
def nestingLimit : Nat := 80

/-- The parts of a key with dots, and the blanks around it. -/
def readKeyParts : (fuel : Nat) → List Char → Option (List String × List Char)
  | 0, _ => none
  | fuel + 1, cs => do
    let (part, rest) ← readSimpleKey (skipBlanks cs)
    match skipBlanks rest with
    | '.' :: rest => do
      let (parts, rest) ← readKeyParts fuel rest
      some (part :: parts, rest)
    | rest => some ([part], rest)

/-- A key with dots: what is before the last dot, and what is after it. -/
def readKey (cs : List Char) : Option ((List String × String) × List Char) := do
  let (parts, rest) ← readKeyParts (nestingLimit - 1) cs
  some ((parts.dropLast, ← parts.getLast?), rest)

/-! ## Numbers and moments -/

/-- Digits, with single underscores between them. -/
def readDigits (isDigit : Char → Bool) : List Char → Option (List Char × List Char)
  | [] => none
  | c :: '_' :: rest =>
    if isDigit c then (readDigits isDigit rest).map fun (ds, rest) => (c :: ds, rest) else none
  | [c] => if isDigit c then some ([c], []) else none
  | c :: d :: rest =>
    if !isDigit c then none
    else if isDigit d then
      (readDigits isDigit (d :: rest)).map fun (ds, rest) => (c :: ds, rest)
    else some ([c], d :: rest)

def greatestInteger : Int := 9223372036854775807

def leastInteger : Int := -9223372036854775808

def integer? (n : Int) : Option Toml :=
  if leastInteger ≤ n ∧ n ≤ greatestInteger then some (.integer n) else none

def readBased (base : Nat) (cs : List Char) : Option (Toml × List Char) := do
  let isDigit (c : Char) : Bool := (Json.hexValue? c).any (· < base)
  let (ds, rest) ← readDigits isDigit cs
  let n := ds.foldl (fun n c => base * n + (Json.hexValue? c).getD 0) 0
  some (← integer? n, rest)

def readExponent? : List Char → Option (Option Int × List Char)
  | c :: rest =>
    if c = 'e' ∨ c = 'E' then do
      let (negative, rest) := match rest with
        | '+' :: r => (false, r)
        | '-' :: r => (true, r)
        | r => (false, r)
      let (ds, rest) ← readDigits Char.isDigit rest
      let n : Int := digitsValue ds
      some (some (if negative then -n else n), rest)
    else some (none, c :: rest)
  | [] => some (none, [])

def readFraction? : List Char → Option (Option (List Char) × List Char)
  | '.' :: rest => (readDigits Char.isDigit rest).map fun (ds, rest) => (some ds, rest)
  | cs => some (none, cs)

/-- A decimal number after its sign. A positive number beyond all floating point numbers is refused.
-/
def readDecimal (negative : Bool) (cs : List Char) : Option (Toml × List Char) := do
  let (whole, rest) ← readDigits Char.isDigit cs
  if whole.head? = some '0' ∧ 1 < whole.length then none
  else
    let (fraction, rest) ← readFraction? rest
    let (power, rest) ← readExponent? rest
    if fraction.isNone && power.isNone then
      let n : Int := digitsValue whole
      some (← integer? (if negative then -n else n), rest)
    else
      let part := fraction.getD []
      let digits := digitsValue (whole ++ part)
      let x := Binary64.ofDecimal negative digits (power.getD 0 - part.length)
      if x = .infinite false then none else some (.float, rest)

def readSigned (negative : Bool) (cs : List Char) : Option (Toml × List Char) :=
  match cs with
  | 'i' :: 'n' :: 'f' :: rest => some (.float, rest)
  | 'n' :: 'a' :: 'n' :: rest => some (.float, rest)
  | cs => readDecimal negative cs

def readNumber : List Char → Option (Toml × List Char)
  | '+' :: rest => readSigned false rest
  | '-' :: rest => readSigned true rest
  | '0' :: 'x' :: rest => readBased 16 rest
  | '0' :: 'o' :: rest => readBased 8 rest
  | '0' :: 'b' :: rest => readBased 2 rest
  | cs => readSigned false cs

/-- A fixed number of digits whose value lies between two bounds. -/
def readField (width least greatest : Nat) (cs : List Char) : Option (Nat × List Char) :=
  let ds := cs.take width
  let n := digitsValue ds
  if ds.length = width ∧ ds.all Char.isDigit ∧ least ≤ n ∧ n ≤ greatest then
    some (n, cs.drop width)
  else none

def expect (c : Char) : List Char → Option (List Char)
  | d :: rest => if d = c then some rest else none
  | [] => none

def readDate (cs : List Char) : Option (List Char) := do
  let (year, rest) ← readField 4 0 9999 cs
  let (month, rest) ← readField 2 1 12 (← expect '-' rest)
  let (_, rest) ← readField 2 1 (daysInMonth year month) (← expect '-' rest)
  some rest
where
  daysInMonth (year month : Nat) : Nat :=
    if month = 2 then
      if year % 4 = 0 ∧ (year % 100 ≠ 0 ∨ year % 400 = 0) then 29 else 28
    else if month = 4 ∨ month = 6 ∨ month = 9 ∨ month = 11 then 30
    else 31

def readClock (cs : List Char) : Option (List Char) := do
  let (_, rest) ← readField 2 0 23 cs
  let (_, rest) ← readField 2 0 59 (← expect ':' rest)
  let (_, rest) ← readField 2 0 60 (← expect ':' rest)
  match rest with
  | '.' :: more =>
    let (ds, more) := splitDigits more
    if ds.isEmpty then none else some more
  | rest => some rest

def readOffset (cs : List Char) : Option (List Char) :=
  match cs with
  | 'Z' :: rest | 'z' :: rest => some rest
  | '+' :: rest | '-' :: rest => do
    let (_, rest) ← readField 2 0 23 rest
    let (_, rest) ← readField 2 0 59 (← expect ':' rest)
    some rest
  | cs => some cs

/-- A date, a time of day, or both with or without an offset. -/
def readMoment (cs : List Char) : Option (List Char) :=
  match readDate cs with
  | none => readClock cs
  | some rest =>
    match rest with
    | 'T' :: more | 't' :: more => (readClock more).bind readOffset
    | ' ' :: more => match readClock more with
      | some more => readOffset more
      | none => some rest
    | rest => some rest

/-! ## Values -/

mutual

/-- A value, with less than `depth` arrays and tables inside one another. -/
def readValue : (fuel depth : Nat) → List Char → Option (Toml × List Char)
  | 0, _, _ => none
  | fuel + 1, depth, cs => match cs with
    | '"' :: rest => (readText '"' rest).map fun (s, rest) => (.text s, rest)
    | '\'' :: rest => (readText '\'' rest).map fun (s, rest) => (.text s, rest)
    | '[' :: rest => if depth ≤ 1 then none else readItems fuel (depth - 1) [] rest
    | '{' :: rest =>
      if depth ≤ 1 then none
      else match skipBlanks rest with
        | '}' :: rest => some (.closed [], rest)
        | rest => readPairs fuel (depth - 1) .defined [] rest
    | 't' :: 'r' :: 'u' :: 'e' :: rest => some (.flag true, rest)
    | 'f' :: 'a' :: 'l' :: 's' :: 'e' :: rest => some (.flag false, rest)
    | cs => match readMoment cs with
      | some rest => some (.moment, rest)
      | none => readNumber cs

/-- The elements of an array; a comma may follow the last one. -/
def readItems : (fuel depth : Nat) → List Toml → List Char → Option (Toml × List Char)
  | 0, _, _, _ => none
  | fuel + 1, depth, seen, cs =>
    match skipLines cs.length cs with
    | ']' :: rest => some (.array seen.reverse, rest)
    | cs => do
      let (v, rest) ← readValue fuel depth cs
      match skipLines rest.length rest with
      | ',' :: rest => readItems fuel depth (v :: seen) rest
      | ']' :: rest => some (.array (v :: seen).reverse, rest)
      | _ => none

/-- The pairs of a table in one piece, all on one line. -/
def readPairs : (fuel depth : Nat) → Origin → Fields → List Char → Option (Toml × List Char)
  | 0, _, _, _, _ => none
  | fuel + 1, depth, origin, fields, cs => do
    let ((path, key), rest) ← readKey cs
    let (v, rest) ← readValue fuel depth (skipBlanks (← expect '=' rest))
    let (origin, fields) ← assign path key v origin fields
    match skipBlanks rest with
    | ',' :: rest => readPairs fuel depth origin fields rest
    | '}' :: rest => some (.closed fields, rest)
    | _ => none

end

/-! ## Documents -/

/-- What has been read of a document: the path of the table that is open, and all tables. -/
structure Draft where
  header : List String := []
  fields : Fields := []

/-- The rest of a header after its brackets were opened. -/
def readHeader (closing : List Char) (cs : List Char) :
    Option ((List String × String) × List Char) := do
  let (key, rest) ← readKey cs
  some (key, ← lineEnd? (← Json.readWord closing rest))

/-- One line that is no comment and not empty: a header, or a key with its value. -/
def readStatement (d : Draft) (cs : List Char) : Option (Draft × List Char) :=
  match cs with
  | '[' :: '[' :: rest => do
    let ((path, key), rest) ← readHeader [']', ']'] rest
    some (⟨path ++ [key], ← openElement path key d.fields⟩, rest)
  | '[' :: rest => do
    let ((path, key), rest) ← readHeader [']'] rest
    some (⟨path ++ [key], ← openTable path key d.fields⟩, rest)
  | cs => do
    let ((path, key), rest) ← readKey cs
    let (v, rest) ← readValue (2 * cs.length + 2) nestingLimit (skipBlanks (← expect '=' rest))
    let rest ← lineEnd? rest
    some ({ d with fields := ← assignUnder d.header path key v d.fields }, rest)

def readStatements : (fuel : Nat) → Draft → List Char → Option Fields
  | 0, _, _ => none
  | fuel + 1, d, cs => match skipBlanks cs with
    | [] => some d.fields
    | '#' :: rest => do readStatements fuel d (← lineEnd? ('#' :: rest))
    | cs => match newline? cs with
      | some rest => readStatements fuel d rest
      | none => do
        let (d, rest) ← readStatement d cs
        readStatements fuel d rest

/-- Reads a document, which may begin with a mark of its byte order. -/
def read (text : String) : Option Fields :=
  let cs := match text.toList with
    | c :: rest => if c.toNat = 0xFEFF then rest else c :: rest
    | [] => []
  readStatements (cs.length + 2) {} cs

end MigrationLedger.Toml
