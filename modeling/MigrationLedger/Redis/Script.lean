import MigrationLedger.Json.Reader
import MigrationLedger.Json.Text
import MigrationLedger.Ordered

/-! The script that a Redis server runs to put an item on a condition. All its numbers are floating
point, a text that writes a number counts as that number, and values that have no fields stop it. -/

namespace MigrationLedger.Redis.Script

/-- A field as the script sees it. Arrays and texts have no named fields, other values than these
and objects cannot be asked. -/
def field? (key : String) : Json → Option (Option Json)
  | .obj fields => some (valueAt key fields)
  | .arr _ | .str _ => some none
  | _ => none

/-- The number that a text writes, between blanks: decimal, or in base sixteen after `0x`. -/
def numeral? (text : String) : Option Binary64 :=
  let isBlank (c : Char) : Bool := c = ' ' || (9 ≤ c.toNat && c.toNat ≤ 13)
  let trimmed := ((text.toList.dropWhile isBlank).reverse.dropWhile isBlank).reverse
  let (negative, digits) := match trimmed with
    | '-' :: r => (true, r)
    | '+' :: r => (false, r)
    | r => (false, r)
  match digits with
  | '0' :: x :: hex =>
    if x = 'x' ∨ x = 'X' then
      if hex.isEmpty then none
      else (hex.mapM Json.hexValue?).map fun ds =>
        .ofRatio negative (ds.foldl (fun n d => 16 * n + d) 0) 1
    else decimal negative digits
  | _ => decimal negative digits
where
  decimal (negative : Bool) (cs : List Char) : Option Binary64 :=
    let (whole, rest) := splitDigits cs
    let (fraction, rest) := match rest with
      | '.' :: r => splitDigits r
      | r => ([], r)
    if whole.isEmpty && fraction.isEmpty then none
    else match Json.readExponent rest with
      | some (power, []) =>
        let digits := digitsValue (whole ++ fraction)
        some (.ofDecimal negative digits (power.getD 0 - fraction.length))
      | _ => none

def number? : Json → Option Binary64
  | .num (.nat n) => some (.ofNat n)
  | .num (.below n) => some (.ofRatio true (n + 1) 1)
  | .num (.float x) => some x
  | .str s => numeral? s
  | _ => none

/-- Nesting beyond this depth is not read. -/
def nestingLimit : Nat := 1001

def decode (text : String) : Option Json := Json.readWith .exact nestingLimit text

/-- The count of writes that a stored item carries; zero when it carries none or no number. Nothing
when the item has no fields. -/
def revisionOf? (existing : Json) : Option Binary64 :=
  (field? "_revision" existing).map fun v => (v.bind number?).getD (.ofNat 0)

/-- The answer of the script, and the write that it makes. -/
structure Outcome where
  reply : Json
  write : Option (String × String) := none

def failed (name : String) (more : Item := []) : Outcome :=
  ⟨.obj (("error", .str name) :: more), none⟩

/-- Whether the stored item is as demanded: the name of what is wrong, if anything. -/
def refusal? (condition : Json) (existing : Option String) : Option (Option String) := do
  let kind ← field? "type" condition
  match kind with
  | some (.str "not_exists") => some (existing.map fun _ => "condition_failed")
  | some (.str "revision_equals") =>
    match existing with
    | none => some (some "condition_failed")
    | some text =>
      let revision ← revisionOf? (← decode text)
      let wanted := (← field? "revision" condition).bind number?
      if wanted.any revision.sameValue then some none
      -- the answer quotes the number found, which has to be finite for that
      else if revision.isFinite then some (some "condition_failed") else none
  | _ => some (some "unknown_condition")

/-- Runs the script on the texts that it is given. None stands for an error of the script. -/
def run (keys : Ordered String) (tableKey payload stem condition : String) : Option Outcome :=
  match keys.get? tableKey with
  | none => some (failed "table_not_found")
  | some text => do
    let schema ← field? "key_schema" (← decode text)
    let name ← field? "partition_key" (← schema)
    let item ← decode payload
    let value ← match name with
      | some (.str wanted) => field? wanted item
      | _ => some none
    match value with
    | none | some (.str "") => missingKey name
    | some (.str key) =>
      let itemKey := stem ++ key
      let refusal ← if condition = "" then some none
        else refusal? (← decode condition) (keys.get? itemKey)
      match refusal with
      | some name => some (failed name)
      | none =>
        some ⟨.obj [("ok", .bool true), ("key", .str itemKey)], some (itemKey, payload)⟩
    | some _ => missingKey name
where
  missingKey (name : Option Json) : Option Outcome :=
    some (failed "missing_key" ((name.map fun n => ("partition_key", n)).toList))

end MigrationLedger.Redis.Script
