import MigrationLedger.Binary64
import MigrationLedger.Ordered

/-! JSON values. Integers stay exact: naturals and negatives are kept apart from the floating point
numbers, so that `1` and `1.0` differ. -/

namespace MigrationLedger

inductive Json.Number where
  | nat (n : Nat)
  /-- The integer `-(n + 1)`. -/
  | below (n : Nat)
  | float (x : Binary64)
  deriving DecidableEq, Repr, Inhabited

/-- Objects list their fields in order; values that were read hold them sorted and without
repetition. -/
inductive Json where
  | null
  | bool (b : Bool)
  | num (n : Json.Number)
  | str (s : String)
  | arr (items : List Json)
  | obj (fields : List (String × Json))
  deriving Repr, Inhabited

/-- The attributes of one stored thing. -/
abbrev Item := List (String × Json)

namespace Json

def ofNat (n : Nat) : Json := .num (.nat n)

def asString? : Json → Option String
  | .str s => some s
  | _ => none

def asNat? : Json → Option Nat
  | .num (.nat n) => some n
  | _ => none

def asBool? : Json → Option Bool
  | .bool b => some b
  | _ => none

def fields : Json → Item
  | .obj fs => fs
  | _ => []

def elements : Json → List Json
  | .arr xs => xs
  | _ => []

def isNull : Json → Bool
  | .null => true
  | _ => false

/-- The value of a field; nothing when there is none or the value is no object. -/
def get? (j : Json) (key : String) : Option Json := valueAt key j.fields

def Number.same : Number → Number → Bool
  | .float a, .float b => a.sameValue b
  | a, b => a == b

mutual

/-- Equality of values, in which the two floating point zeros are equal. -/
def same : Json → Json → Bool
  | .null, .null => true
  | .bool a, .bool b => a == b
  | .num a, .num b => a.same b
  | .str a, .str b => a == b
  | .arr a, .arr b => sameItems a b
  | .obj a, .obj b => sameFields a b
  | _, _ => false

def sameItems : List Json → List Json → Bool
  | [], [] => true
  | a :: as, b :: bs => same a b && sameItems as bs
  | _, _ => false

def sameFields : List (String × Json) → List (String × Json) → Bool
  | [], [] => true
  | (k, a) :: as, (l, b) :: bs => k == l && same a b && sameFields as bs
  | _, _ => false

end

end Json

end MigrationLedger
