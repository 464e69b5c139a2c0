import MigrationLedger.Fault
import MigrationLedger.Json

/-! Tables of items: how a table is keyed, what guards a put, and the calls that a store answers. -/

namespace MigrationLedger

inductive AttributeType where
  | text
  | number
  deriving DecidableEq, Repr, Inhabited

def AttributeType.code : AttributeType → String
  | text => "S"
  | number => "N"

def AttributeType.ofCode? : String → Option AttributeType
  | "S" => some text
  | "N" => some number
  | _ => none

structure KeySchema where
  partitionKey : String
  attributeType : AttributeType
  deriving DecidableEq, Repr, Inhabited

def KeySchema.json (s : KeySchema) : Json :=
  .obj [("partition_key", .str s.partitionKey), ("attribute_type", .str s.attributeType.code)]

inductive TableStatus where
  | creating
  | active
  deriving DecidableEq, Repr, Inhabited

def TableStatus.code : TableStatus → String
  | creating => "CREATING"
  | active => "ACTIVE"

structure TableDescription where
  name : String
  schema : KeySchema
  status : TableStatus
  createdAt : Instant
  deriving DecidableEq, Repr, Inhabited

def TableDescription.json (d : TableDescription) : Json :=
  .obj [("name", .str d.name), ("key_schema", d.schema.json), ("status", .str d.status.code),
    ("created_at", .str d.createdAt.text)]

/-- What a put demands of the item that it replaces. -/
inductive Condition where
  | absent
  | revision (n : Nat)
  deriving DecidableEq, Repr, Inhabited

def Condition.json : Condition → Json
  | absent => .obj [("type", .str "not_exists")]
  | revision n => .obj [("type", .str "revision_equals"), ("revision", .ofNat n)]

/-- The attribute that counts the writes of an item. -/
def revisionAttribute : String := "_revision"

/-- The count of writes that an item carries: zero when it carries none or no natural number. -/
def Item.revision (item : Item) : Nat := ((valueAt revisionAttribute item).bind Json.asNat?).getD 0

def Item.withRevision (item : Item) (n : Nat) : Item := insertKey revisionAttribute (.ofNat n) item

def Item.withoutRevision (item : Item) : Item := item.filter (·.1 != revisionAttribute)

def Condition.holds (existing : Option Item) : Condition → Bool
  | absent => existing.isNone
  | revision n => existing.any (·.revision = n)

/-- The text under the partition key, which an item must have. -/
def KeySchema.keyOf (s : KeySchema) (item : Item) : Except StoreFault String :=
  match (valueAt s.partitionKey item).bind Json.asString? with
  | none | some "" => .error (.codec s!"item is missing partition key '{s.partitionKey}'")
  | some key => .ok key

/-- A part of a table's items, and where the next part begins. -/
structure Page where
  items : List Item
  next : Option String
  deriving Inhabited

/-- What a store can be asked. -/
inductive Call where
  | tableExists (table : String)
  | createTable (table : String) (schema : KeySchema)
  | describeTable (table : String)
  | putItem (table : String) (item : Item) (condition : Option Condition)
  | getItem (table key : String)
  | scan (table : String) (cursor : Option String) (limit : Nat)
  deriving Inhabited

namespace Call

/-- What the store gives back when it does what it was asked. -/
abbrev Reply : Call → Type
  | tableExists _ => Bool
  | createTable .. => Unit
  | describeTable _ => Option TableDescription
  | putItem .. => Unit
  | getItem .. => Option Item
  | scan .. => Page

def name : Call → String
  | tableExists _ => "table_exists"
  | createTable .. => "create_table"
  | describeTable _ => "describe_table"
  | putItem .. => "put_item"
  | getItem .. => "get_item"
  | scan .. => "scan"

end Call

abbrev Answer (c : Call) : Type := Except StoreFault c.Reply

end MigrationLedger
