import MigrationLedger.Listing
import MigrationLedger.Provision
import MigrationLedger.Update

/-! The ledger: a table of entries behind a lifecycle. Data is read and written only once the table
is known to be there, and every operation has a time limit. -/

namespace MigrationLedger

inductive Lifecycle where
  | uninitialized
  | initializing
  | ready
  deriving DecidableEq, Repr, Inhabited

def Lifecycle.text : Lifecycle → String
  | uninitialized => "uninitialized"
  | initializing => "initializing"
  | ready => "ready"

structure TableOptions where
  operationTimeout : Span := .ofSeconds 30
  readyPollInterval : Span := .ofMillis 200
  scanPageSize : Nat := 100
  /-- The least pause after a write that came too late. -/
  conflictBackoff : Span := .ofMillis 5
  deriving DecidableEq, Repr, Inhabited

/-- Letters, digits, underscores, points and hyphens of ASCII, from 3 to 255 of them. -/
def isTableName (name : String) : Bool :=
  3 ≤ name.utf8ByteSize && name.utf8ByteSize ≤ 255 &&
    name.toList.all fun c => c.isAlphanum || c = '_' || c = '.' || c = '-'

structure Ledger where
  table : String
  options : TableOptions
  deriving Repr, Inhabited

namespace Ledger

def open? (table : String) (options : TableOptions) : Except LedgerFault Ledger :=
  if isTableName table then .ok ⟨table, options⟩ else .error (.invalidTableName table)

/-- The lifecycle after a data operation: a table that is gone has to be made sure of again. -/
def observe {α : Type} (k : Lifecycle) : Except LedgerFault α → Lifecycle
  | .error (.notInitialized _) => .uninitialized
  | _ => k

/-- A data operation: refused unless the ledger is ready, and under a time limit. -/
def guarded {σ α : Type} (l : Ledger) (name : String) (after : Span) (first : σ)
    (m : Machine Lifecycle σ (Except LedgerFault α)) :
    Operation Lifecycle (Bounded Unit σ (Except LedgerFault α)) (Except LedgerFault α) where
  start t k :=
    if k = .ready then (k, .active () (t.elapsed.add after) first)
    else (k, .ended (.error (.notInitialized l.table)))
  machine := Bounded.machine m (fun _ k a => (observe k a, a))
    (.error (.timeout name l.table after))

def provision (l : Ledger) (allowCreate : Bool) : Provision :=
  ⟨l.table, Entry.schema, allowCreate, l.options.readyPollInterval⟩

/-- The lifecycle once an initialization has ended. Of a failure that tells nothing about the
table, only an initialization that began unready takes notice. -/
def settleLifecycle (wasReady : Bool) (k : Lifecycle) : Except LedgerFault Unit → Lifecycle
  | .ok () => .ready
  | .error (.creationRefused _) | .error (.notInitialized _) => .uninitialized
  | .error _ => if !wasReady && k = .initializing then .uninitialized else k

def prepare (l : Ledger) (allowCreate : Bool) (after : Span) :
    Operation Lifecycle (Bounded Bool Provision.Phase (Except LedgerFault Unit))
      (Except LedgerFault Unit) where
  start t k :=
    (if k = .uninitialized then .initializing else k,
      .active (k = .ready) (t.elapsed.add after) .describing)
  machine := Bounded.machine (l.provision allowCreate).machine
    (fun wasReady k a => (settleLifecycle wasReady k a, a)) ((l.provision allowCreate).late after)

def greatestBackoffFactor : Nat := 8

/-- Saving merges the entry into what is stored under its change id. -/
def saving (l : Ledger) (e : Entry) : Update LedgerFault Unit where
  table := l.table
  key := e.changeId
  decide _ read :=
    match read with
    | none => .write (Entry.merge none e).toItem ()
    | some item =>
      match Entry.ofItem item with
      | .error fault => .stop (.error fault)
      | .ok stored => .write (Entry.merge (some stored) e).toItem ()
  pause conflicts := l.options.conflictBackoff.times (min conflicts greatestBackoffFactor)
  ofStore := .ofStore

def save (l : Ledger) (e : Entry) (after : Span) :
    Operation Lifecycle (Bounded Unit (Update.Phase LedgerFault Unit) (Except LedgerFault Unit))
      (Except LedgerFault Unit) :=
  let guard := l.guarded "save_or_update" after (.reading 0) (l.saving e).machine
  { guard with
    start t k :=
      if k = .ready ∧ e.changeId = "" then
        (k, .ended (.error (.invalidEntry "change entry has an empty changeId")))
      else guard.start t k }

def list (l : Ledger) (after : Span) :
    Operation Lifecycle (Bounded Unit Listing.Phase (Except LedgerFault (List Entry)))
      (Except LedgerFault (List Entry)) :=
  l.guarded "get_entries_log" after (.reading none [])
    (Listing.machine ⟨l.table, l.options.scanPageSize⟩)

def entryOfAnswer : Except StoreFault (Option Item) → Except LedgerFault (Option Entry)
  | .error fault => .error (.ofStore fault)
  | .ok none => .ok none
  | .ok (some item) => (Entry.ofItem item).map some

def find (l : Ledger) (changeId : String) :
    Operation Lifecycle (Bounded Unit (Option (Except LedgerFault (Option Entry)))
      (Except LedgerFault (Option Entry))) (Except LedgerFault (Option Entry)) :=
  l.guarded "find_entry" l.options.operationTimeout none
    (inquiry (.getItem l.table changeId) entryOfAnswer)

/-- Whether an entry says that `author` ran the change with success. -/
def isExecutedBy (author : String) (e : Option Entry) : Bool :=
  e.any fun e => e.author = author && e.isExecuted

def executedOf (entries : List Entry) : List Entry := entries.filter Entry.isExecuted

end Ledger

end MigrationLedger
