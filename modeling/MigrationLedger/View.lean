import MigrationLedger.Console
import MigrationLedger.Grid
import MigrationLedger.Instant.Text
import MigrationLedger.Json.Text
import MigrationLedger.Lease

/-! What an operator sees of entries and leases: tables, JSON, or one line each. -/

namespace MigrationLedger

def ChangeType.title : ChangeType → String
  | execution => "Execution"
  | beforeExecution => "BeforeExecution"

def LeaseStatus.title : LeaseStatus → String
  | held => "LockHeld"
  | released => "Released"

def Entry.stateText (e : Entry) : String := e.state.elim "-" ChangeState.text

/-- Earlier entries come first, and of entries of one instant the one with the lesser change id. -/
def Entry.isUpTo (a b : Entry) : Bool :=
  a.timestamp < b.timestamp || (a.timestamp = b.timestamp && !(b.changeId < a.changeId))

inductive View where
  | entries (sorted : List Entry)
  | entry (e : Entry)
  | lease (l : Lease) (isActive : Bool)

namespace View

def ofEntries (es : List Entry) : View := .entries (es.mergeSort Entry.isUpTo)

/-- A lease, as it stands at `now`. -/
def ofLease (l : Lease) (now : Instant) : View := .lease l (l.isActiveAt now)

def json : View → Json
  | .entries es => .arr (es.map Entry.json)
  | .entry e => e.json
  | .lease l isActive => .obj (l.attributes ++ [("active", .bool isActive)])

def headings : List String :=
  ["Change", "Author", "State", "Change log", "Execution", "Timestamp", "ms"]

def entryRow (e : Entry) : List String :=
  [e.changeId, e.author, e.stateText, e.changeLogClass, e.executionId, e.timestamp.shortText,
    toString e.executionMillis]

def entriesGrid (es : List Entry) : Grid :=
  if es.isEmpty then { rows := [["No change entries recorded"]] }
  else { header := some headings, rows := es.map entryRow }

/-- One row for each field. -/
def entryGrid (e : Entry) : Grid where
  rows :=
    [["state", e.stateText], ["changeId", e.changeId], ["executionId", e.executionId],
      ["author", e.author], ["changeLogClass", e.changeLogClass],
      ["changeSetMethod", e.changeSetMethod], ["type", e.changeType.title],
      ["timestamp", e.timestamp.offsetText], ["executionMillis", toString e.executionMillis],
      ["executionHostname", e.executionHostname], ["systemChange", toString e.systemChange]] ++
    (e.errorTrace.map fun t => ["errorTrace", t]).toList ++
    (e.metadata.map fun m => ["metadata", m.pretty]).toList

def standing (isActive : Bool) : String := if isActive then "HELD" else "FREE"

def leaseGrid (l : Lease) (isActive : Bool) : Grid where
  rows :=
    [["lock", standing isActive], ["key", l.key], ["owner", l.owner],
      ["recorded", l.status.title], ["expiresAt", l.expiresAt.offsetText]]

def grid : View → Grid
  | .entries es => entriesGrid es
  | .entry e => entryGrid e
  | .lease l isActive => leaseGrid l isActive

def entryLine (e : Entry) : String := e.changeId ++ " " ++ e.author ++ " " ++ e.stateText

def compact : View → String
  | .entries es => "\n".intercalate (es.map entryLine)
  | .entry e => entryLine e
  | .lease l isActive =>
    l.key ++ " " ++ standing isActive ++ " " ++ l.owner ++ " " ++ l.expiresAt.offsetText

def render (v : View) (c : Console) : String :=
  match c.format with
  | .json => v.json.pretty
  | .table => v.grid.text (if c.plain then .ascii else .drawn)
  | .compact => v.compact

end View

def Console.display (c : Console) (v : View) : Printed := c.put (v.render c)

end MigrationLedger
