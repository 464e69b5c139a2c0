import MigrationLedger.Attribute
import MigrationLedger.Table

/-! The record of a lock: who took it last, until when, and whether it was given back. -/

namespace MigrationLedger

inductive LeaseStatus where
  | held
  | released
  deriving DecidableEq, Repr, Inhabited

def LeaseStatus.text : LeaseStatus → String
  | held => "LOCK_HELD"
  | released => "RELEASED"

def LeaseStatus.names : List (String × LeaseStatus) :=
  [held, released].map fun s => (s.text, s)

structure Lease where
  key : String
  status : LeaseStatus := .held
  owner : String
  expiresAt : Instant
  deriving DecidableEq, Repr, Inhabited

namespace Lease

def keyAttribute : String := "key"

/-- The key of every table of locks. -/
def schema : KeySchema := ⟨keyAttribute, .text⟩

/-- Held, and not run out. -/
def isActiveAt (l : Lease) (now : Instant) : Bool := l.status = .held && now < l.expiresAt

/-- Active, and in the hands of somebody else than `owner`. -/
def blocks (l : Lease) (owner : String) (now : Instant) : Bool :=
  l.owner ≠ owner && l.isActiveAt now

/-- The attributes in the order of the record's fields. -/
def attributes (l : Lease) : Item :=
  [("key", .str l.key), ("status", .str l.status.text), ("owner", .str l.owner),
    ("expiresAt", .str l.expiresAt.text)]

def json (l : Lease) : Json := .obj l.attributes

/-- The stored form: the attributes in the order of their names. -/
def toItem (l : Lease) : Item := (Ordered.ofList l.attributes).entries

/-- Whether a stored attribute fits the field of that name. Names that no field has always fit. -/
def checkAttribute (name : String) (j : Json) : Except String Unit :=
  match name with
  | "key" | "owner" => discard (Attribute.text j)
  | "status" => discard (Attribute.variant LeaseStatus.names j)
  | "expiresAt" => discard (Attribute.instant j)
  | _ => .ok ()

open Attribute in
/-- Attributes are checked in the order of the item, and after that missing ones are found in the
order of the fields. -/
def decode (item : Item) : Except String Lease := do
  item.forM fun a => checkAttribute a.1 a.2
  let key ← required item "key" text
  let status ← required item "status" (variant LeaseStatus.names)
  let owner ← required item "owner" text
  let expiresAt ← required item "expiresAt" instant
  pure ⟨key, status, owner, expiresAt⟩

/-- The lease that an item stores; its count of writes is no part of it. -/
def ofItem (item : Item) : Except LeaseFault Lease :=
  (decode item.withoutRevision).mapError fun flaw =>
    .invalidRecord s!"failed to decode lock: {flaw}"

end Lease

end MigrationLedger
