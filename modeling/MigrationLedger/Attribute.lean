import MigrationLedger.Instant.Reader
import MigrationLedger.Json.Text
import MigrationLedger.Text.Quoted

/-! Decoding of single attributes. A value that does not fit is reported with what was found and
what was expected in its place. -/

namespace MigrationLedger.Attribute

def found : Json → String
  | .null => "null"
  | .bool b => s!"boolean `{b}`"
  | .num (.float x) => "floating point `" ++ (Json.Number.float x).text ++ "`"
  | .num n => "integer `" ++ n.text ++ "`"
  | .str s => "string " ++ quoted s
  | .arr _ => "sequence"
  | .obj _ => "map"

def wrongType (expected : String) (j : Json) : String :=
  s!"invalid type: " ++ found j ++ s!", expected {expected}"

def text (j : Json) : Except String String :=
  match j.asString? with
  | some s => .ok s
  | none => .error (wrongType "a string" j)

def flag (j : Json) : Except String Bool :=
  match j.asBool? with
  | some b => .ok b
  | none => .error (wrongType "a boolean" j)

def natural : Json → Except String Nat
  | .num (.nat n) => .ok n
  | .num (.below n) => .error ("invalid value: " ++ found (.num (.below n)) ++ ", expected u64")
  | j => .error (wrongType "u64" j)

def instant : Json → Except String Instant
  | .str s => (Instant.read s).mapError Instant.Flaw.message
  | j => .error (wrongType "an RFC 3339 formatted date and time string" j)

/-- Names between backticks, as a choice. -/
def choice : List String → String
  | [] => "there are no variants"
  | [a] => s!"expected `{a}`"
  | [a, b] => s!"expected `{a}` or `{b}`"
  | names => "expected one of " ++ ", ".intercalate (names.map fun n => s!"`{n}`")

def named {α : Type} (variants : List (String × α)) (name : String) : Except String α :=
  match variants.lookup name with
  | some v => .ok v
  | none => .error (s!"unknown variant `{name}`, " ++ choice (variants.map (·.1)))

/-- One of several names: a string, or an object whose only field has the name and holds null. -/
def variant {α : Type} (variants : List (String × α)) : Json → Except String α
  | .str s => named variants s
  | .obj [(name, j)] => do
    let v ← named variants name
    match j with
    | .null => .ok v
    | j => .error (wrongType "unit" j)
  | .obj _ => .error "invalid value: map, expected map with a single key"
  | j => .error (wrongType "string or map" j)

/-- Null counts as absent. -/
def optional {α : Type} (decode : Json → Except String α) : Json → Except String (Option α)
  | .null => .ok none
  | j => (decode j).map some

def required {α : Type} (item : Item) (key : String) (decode : Json → Except String α) :
    Except String α :=
  match valueAt key item with
  | some j => decode j
  | none => .error s!"missing field `{key}`"

def defaulting {α : Type} (item : Item) (key : String) (decode : Json → Except String α)
    (absent : α) : Except String α :=
  match valueAt key item with
  | some j => decode j
  | none => .ok absent

end MigrationLedger.Attribute
