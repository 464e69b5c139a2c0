import MigrationLedger.Ledger
import MigrationLedger.Lease

/-! The table of locks. A lease is read and written only by conditional updates, so of two owners
that race for a free lock one wins. -/

namespace MigrationLedger

structure LockTable where
  table : String
  options : TableOptions
  deriving Repr, Inhabited

namespace LockTable

def open? (table : String) (options : TableOptions) : Except LedgerFault LockTable :=
  if isTableName table then .ok ⟨table, options⟩ else .error (.invalidTableName table)

def provision (l : LockTable) (allowCreate : Bool) : Provision :=
  ⟨l.table, Lease.schema, allowCreate, l.options.readyPollInterval⟩

def prepare {κ : Type} (l : LockTable) (allowCreate : Bool) :
    Operation κ (Bounded Unit Provision.Phase (Except LedgerFault Unit))
      (Except LedgerFault Unit) :=
  (l.provision allowCreate).ensureWithin l.options.operationTimeout

/-- An operation on a lock, under the time limit of the table. -/
def within {κ σ α : Type} (l : LockTable) (name : String) (first : σ)
    (m : Machine κ σ (Except LeaseFault α)) :
    Operation κ (Bounded Unit σ (Except LeaseFault α)) (Except LeaseFault α) where
  start t k := (k, .active () (t.elapsed.add l.options.operationTimeout) first)
  machine := Bounded.machine m (fun _ k a => (k, a))
    (.error (.ledger (.timeout name l.table l.options.operationTimeout)))

def leaseOfAnswer : Except StoreFault (Option Item) → Except LeaseFault (Option Lease)
  | .error fault => .error (.ofStore fault)
  | .ok none => .ok none
  | .ok (some item) => (Lease.ofItem item).map some

def find {κ : Type} (l : LockTable) (key : String) :
    Operation κ (Bounded Unit (Option (Except LeaseFault (Option Lease)))
      (Except LeaseFault (Option Lease))) (Except LeaseFault (Option Lease)) :=
  l.within "find_lock" none (inquiry (.getItem l.table key) leaseOfAnswer)

/-- An update of the lease under `key` that decides on the decoded lease. -/
def leaseUpdate {α : Type} (l : LockTable) (key : String)
    (decide : Instant → Option Lease → Verdict LeaseFault α) : Update LeaseFault α where
  table := l.table
  key := key
  decide t read :=
    match read with
    | none => decide t.wall none
    | some item =>
      match Lease.ofItem item with
      | .error fault => .stop (.error fault)
      | .ok lease => decide t.wall (some lease)
  pause _ := l.options.conflictBackoff
  ofStore := .ofStore

/-- Takes the lock, unless somebody else's lease is running. An own lease is extended. -/
def decideTake (new : Lease) (now : Instant) : Option Lease → Verdict LeaseFault Unit
  | none => .write new.toItem ()
  | some current =>
    if current.blocks new.owner now then
      .stop (.error (.heldByOther new.key current.owner current.expiresAt))
    else .write new.toItem ()

/-- Extends a lease that is still its owner's. -/
def decideExtend (new : Lease) (now : Instant) : Option Lease → Verdict LeaseFault Unit
  | none => .stop (.error (.lost new.key))
  | some current =>
    if current.blocks new.owner now then
      .stop (.error (.heldByOther new.key current.owner current.expiresAt))
    else if current.owner ≠ new.owner ∨ current.status ≠ .held then
      .stop (.error (.lost new.key))
    else .write new.toItem ()

/-- Gives the lock back if `owner` holds it; the answer tells whether that was so. -/
def decideGiveBack (owner : String) (now : Instant) : Option Lease → Verdict LeaseFault Bool
  | none => .stop (.ok false)
  | some current =>
    if current.owner = owner ∧ current.status = .held then
      .write { current with status := .released, expiresAt := now }.toItem true
    else .stop (.ok false)

abbrev Changing (α : Type) : Type :=
  Bounded Unit (Update.Phase LeaseFault α) (Except LeaseFault α)

def take {κ : Type} (l : LockTable) (new : Lease) :
    Operation κ (Changing Unit) (Except LeaseFault Unit) :=
  l.within "insert_lock" (.reading 0) (l.leaseUpdate new.key (decideTake new)).machine

def extend {κ : Type} (l : LockTable) (new : Lease) :
    Operation κ (Changing Unit) (Except LeaseFault Unit) :=
  l.within "refresh_lock" (.reading 0) (l.leaseUpdate new.key (decideExtend new)).machine

def giveBack {κ : Type} (l : LockTable) (key owner : String) :
    Operation κ (Changing Bool) (Except LeaseFault Bool) :=
  l.within "release_lock" (.reading 0) (l.leaseUpdate key (decideGiveBack owner)).machine

end LockTable

end MigrationLedger
