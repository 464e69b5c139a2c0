import MigrationLedger.Holder
import MigrationLedger.Redis.Server

/-! The steps of a scripted run, and what comes out of each. Ledgers, tables of locks and holders
are kept under names. -/

namespace MigrationLedger.Scenario

/-- What a hook does around the call on which it fires, in the order of the fields. -/
structure HookAction where
  sleep : Nat := 0
  drop : Option String := none
  create : Option (String × KeySchema) := none
  put : Option (String × Item) := none
  fail : Option StoreFault := none
  append : List Item := []

structure Hook where
  /-- The name of the calls on which it fires; without one, every call. -/
  call : Option String := none
  skip : Nat := 0
  times : Nat := 1
  action : HookAction

/-- A lease to write: decoded from an item, or held from now on for a number of milliseconds. -/
inductive LeaseSource where
  | item (item : Item)
  | ahead (key owner : String) (millis : Int)

inductive Step where
  | call (c : Call)
  -- a store in memory
  | createActive (table : String) (schema : KeySchema)
  | drop (table : String)
  | itemCount (table : String)
  | rawItem (table key : String)
  | failNext (fault : StoreFault)
  | setLatency (millis : Nat)
  | setActivationPolls (polls : Nat)
  | hook (h : Hook)
  -- a store on a server
  | setWall (now : Instant)
  | setKey (key : String) (value : Option String)
  | spoil (fault : Redis.Fault)
  | unloadScript
  -- tables and entries
  | provision (p : Provision) (within : Option Span)
  | openLedger (id table : String) (options : TableOptions)
  | lifecycle (id : String)
  | prepare (id : String) (allowCreate : Bool) (within : Option Span)
  | save (id : String) (item : Item) (within : Option Span)
  | list (id : String) (within : Option Span)
  | listExecuted (id : String)
  | find (id changeId : String)
  | isExecuted (id changeId author : String)
  -- locks
  | openLocks (id table : String) (options : TableOptions)
  | prepareLocks (id : String) (allowCreate : Bool)
  | findLease (id key : String)
  | take (id : String) (lease : LeaseSource)
  | extend (id : String) (lease : LeaseSource)
  | giveBack (id key owner : String)
  | openHolder (id locks key owner : String) (options : LockOptions)
  | acquire (id : String)
  | ensure (id : String)
  | release (id : String)
  | startRefresher (id : String)
  | held (id : String)
  -- the run itself
  | showStore
  | showLedger (id : String)
  | showHolder (id : String)
  | advance (millis : Nat)
  /-- Starts all tasks together, each after a delay. -/
  | together (tasks : List (Nat × Step))

inductive Outcome where
  | nothing
  | flag (b : Bool)
  | count (n : Option Nat)
  | item (item : Option Item)
  | description (d : Option TableDescription)
  | page (p : Page)
  | entries (es : List Entry)
  | entry (e : Option Entry)
  | lease (l : Option Lease)
  | lifecycle (k : Lifecycle)
  | ledger (l : Ledger) (k : Lifecycle)
  | locks (l : LockTable)
  | holder (h : Holder)
  | hold (held : Bool) (expiresAt : Option Instant)
  | shown (text : String)
  | together (results : List (Outcome × Nat))
  | storeFault (fault : StoreFault)
  | ledgerFault (fault : LedgerFault)
  | leaseFault (fault : LeaseFault)
  /-- The step names an object that there is not. -/
  | unusable (reason : String)
  deriving Inhabited

namespace Outcome

def ofStore {α : Type} (f : α → Outcome) : Except StoreFault α → Outcome
  | .ok a => f a
  | .error fault => .storeFault fault

def ofLedger {α : Type} (f : α → Outcome) : Except LedgerFault α → Outcome
  | .ok a => f a
  | .error fault => .ledgerFault fault

def ofLease {α : Type} (f : α → Outcome) : Except LeaseFault α → Outcome
  | .ok a => f a
  | .error fault => .leaseFault fault

def ofAnswer : (c : Call) → Answer c → Outcome
  | .tableExists _, x => ofStore .flag x
  | .createTable .., x => ofStore (fun _ => .nothing) x
  | .describeTable _, x => ofStore .description x
  | .putItem .., x => ofStore (fun _ => .nothing) x
  | .getItem .., x => ofStore .item x
  | .scan .., x => ofStore .page x

end Outcome

end MigrationLedger.Scenario
