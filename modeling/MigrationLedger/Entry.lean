import MigrationLedger.Attribute
import MigrationLedger.Table

/-! The record of one change: who ran which change, when, and with what outcome. Records are stored
as items; saving a change again keeps its identity and replaces the rest. -/

namespace MigrationLedger

inductive ChangeState where
  | executed
  | failed
  | rolledBack
  | rollbackFailed
  | ignored
  deriving DecidableEq, Repr, Inhabited

def ChangeState.text : ChangeState → String
  | executed => "EXECUTED"
  | failed => "FAILED"
  | rolledBack => "ROLLED_BACK"
  | rollbackFailed => "ROLLBACK_FAILED"
  | ignored => "IGNORED"

def ChangeState.names : List (String × ChangeState) :=
  [executed, failed, rolledBack, rollbackFailed, ignored].map fun s => (s.text, s)

/-- Whether a change ran as one of the regular changes or ahead of them. -/
inductive ChangeType where
  | execution
  | beforeExecution
  deriving DecidableEq, Repr, Inhabited

def ChangeType.text : ChangeType → String
  | execution => "EXECUTION"
  | beforeExecution => "BEFORE_EXECUTION"

def ChangeType.names : List (String × ChangeType) :=
  [execution, beforeExecution].map fun t => (t.text, t)

structure Entry where
  changeId : String
  executionId : String
  author : String
  changeLogClass : String
  changeSetMethod : String := ""
  state : Option ChangeState := some .executed
  changeType : ChangeType := .execution
  timestamp : Instant
  executionMillis : Nat := 0
  executionHostname : String := ""
  errorTrace : Option String := none
  systemChange : Bool := false
  metadata : Option Json := none
  deriving Repr, Inhabited

namespace Entry

def changeIdAttribute : String := "changeId"

/-- The key of every table of entries. -/
def schema : KeySchema := ⟨changeIdAttribute, .text⟩

/-- A change without a state was recorded before there were states, and counts as executed. -/
def isExecuted (e : Entry) : Bool := e.state.all (· == .executed)

/-- The attributes in the order of the record's fields. -/
def attributes (e : Entry) : Item :=
  [("changeId", .str e.changeId), ("executionId", .str e.executionId), ("author", .str e.author),
    ("changeLogClass", .str e.changeLogClass), ("changeSetMethod", .str e.changeSetMethod)] ++
  (e.state.map fun s => ("state", Json.str s.text)).toList ++
  [("type", .str e.changeType.text), ("timestamp", .str e.timestamp.text),
    ("executionMillis", .ofNat e.executionMillis),
    ("executionHostname", .str e.executionHostname)] ++
  (e.errorTrace.map fun t => ("errorTrace", Json.str t)).toList ++
  [("systemChange", .bool e.systemChange)] ++
  (e.metadata.map fun m => ("metadata", m)).toList

def json (e : Entry) : Json := .obj e.attributes

/-- The stored form: the attributes in the order of their names. -/
def toItem (e : Entry) : Item := (Ordered.ofList e.attributes).entries

/-- Whether a stored attribute fits the field of that name. Names that no field has always fit. -/
def checkAttribute (name : String) (j : Json) : Except String Unit :=
  match name with
  | "changeId" | "executionId" | "author" | "changeLogClass" | "changeSetMethod"
  | "executionHostname" => discard (Attribute.text j)
  | "state" => discard (Attribute.optional (Attribute.variant ChangeState.names) j)
  | "type" => discard (Attribute.variant ChangeType.names j)
  | "timestamp" => discard (Attribute.instant j)
  | "executionMillis" => discard (Attribute.natural j)
  | "errorTrace" => discard (Attribute.optional Attribute.text j)
  | "systemChange" => discard (Attribute.flag j)
  | _ => .ok ()

open Attribute in
/-- Attributes are checked in the order of the item, and after that missing ones are found in the
order of the fields. -/
def decode (item : Item) : Except String Entry := do
  item.forM fun a => checkAttribute a.1 a.2
  let changeId ← required item "changeId" text
  let executionId ← required item "executionId" text
  let author ← required item "author" text
  let changeLogClass ← required item "changeLogClass" text
  let changeSetMethod ← defaulting item "changeSetMethod" text ""
  let state ← defaulting item "state" (optional (variant ChangeState.names)) none
  let changeType ← defaulting item "type" (variant ChangeType.names) .execution
  let timestamp ← required item "timestamp" instant
  let executionMillis ← defaulting item "executionMillis" natural 0
  let executionHostname ← defaulting item "executionHostname" text ""
  let errorTrace ← defaulting item "errorTrace" (optional text) none
  let systemChange ← defaulting item "systemChange" flag false
  let metadata ← defaulting item "metadata" (optional pure) none
  pure ⟨changeId, executionId, author, changeLogClass, changeSetMethod, state, changeType,
    timestamp, executionMillis, executionHostname, errorTrace, systemChange, metadata⟩

/-- The entry that an item stores; its count of writes is no part of it. -/
def ofItem (item : Item) : Except LedgerFault Entry :=
  let item := item.withoutRevision
  let id := ((valueAt changeIdAttribute item).bind Json.asString?).getD "<missing changeId>"
  (decode item).mapError fun flaw =>
    .invalidEntry s!"failed to decode change entry '{id}': {flaw}"

/-- What is stored after `incoming` is saved: the first save of a change gives its identity, the
last one everything else. -/
def merge (existing : Option Entry) (incoming : Entry) : Entry :=
  match existing with
  | none => incoming
  | some stored =>
    { incoming with
      changeId := stored.changeId
      executionId := stored.executionId
      author := stored.author }

/-- Equality, by the values of the metadata. -/
def same (a b : Entry) : Bool :=
  a.changeId == b.changeId && a.executionId == b.executionId && a.author == b.author &&
    a.changeLogClass == b.changeLogClass && a.changeSetMethod == b.changeSetMethod &&
    a.state == b.state && a.changeType == b.changeType && a.timestamp == b.timestamp &&
    a.executionMillis == b.executionMillis && a.executionHostname == b.executionHostname &&
    a.errorTrace == b.errorTrace && a.systemChange == b.systemChange &&
    (match a.metadata, b.metadata with
      | none, none => true
      | some x, some y => x.same y
      | _, _ => false)

end Entry

end MigrationLedger
