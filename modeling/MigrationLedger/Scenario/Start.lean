import MigrationLedger.Scenario.World
import MigrationLedger.Text.Quoted

/-! How each step of a scripted run starts. A step that needs no time ends at once, any other
becomes a task. -/

namespace MigrationLedger.Scenario.World

def noLedger : Outcome := .unusable "no such repository"

def noLocks : Outcome := .unusable "no such lock repository"

def noHolder : Outcome := .unusable "no such lock manager"

def launch {κ σ α : Type} (w : World) (id : Nat) (op : Operation κ σ α) (read : Cells → κ)
    (write : κ → Cells → Cells) (conclude : α → Outcome) : World :=
  let (k, state) := op.start w.moment (read w.cells)
  let activity : Activity := ⟨op.machine, read, write, conclude, state⟩
  { w with cells := write k w.cells }.addTask ⟨id, .active activity .ready, w.now⟩

/-- Launches an operation that shares nothing. -/
def launchAlone {σ α : Type} (w : World) (id : Nat) (op : Operation Unit σ α)
    (conclude : α → Outcome) : World :=
  w.launch id op (fun _ => ()) (fun _ cells => cells) conclude

def launchOnLedger {σ α : Type} (w : World) (id : Nat) (name : String)
    (op : Ledger → Operation Lifecycle σ α) (conclude : α → Outcome) : World :=
  match w.ledgers.lookup name with
  | none => w.finish id noLedger
  | some (l, cell) =>
    w.launch id (op l) (fun cells => cells.lifecycles.getD cell default)
      (fun k cells => { cells with lifecycles := cells.lifecycles.setIfInBounds cell k }) conclude

def launchOnLocks {σ α : Type} (w : World) (id : Nat) (name : String)
    (op : LockTable → Operation Unit σ α) (conclude : α → Outcome) : World :=
  match w.locks.lookup name with
  | none => w.finish id noLocks
  | some l => w.launchAlone id (op l) conclude

def launchOnHold {σ α : Type} (w : World) (id cell : Nat) (op : Operation Hold σ α)
    (conclude : α → Outcome) : World :=
  w.launch id op (fun cells => cells.holds.getD cell default)
    (fun k cells => { cells with holds := cells.holds.setIfInBounds cell k }) conclude

def onHolder (w : World) (id : Nat) (name : String) (f : NamedHolder → World) : World :=
  match w.holders.lookup name with
  | none => w.finish id noHolder
  | some h => f h

def leaseOf (w : World) : LeaseSource → Except LeaseFault Lease
  | .item item => Lease.ofItem item
  | .ahead key owner millis =>
    .ok ⟨key, .held, owner, w.wallNow.shift (millis * Span.nanosPerMilli)⟩

/-- Keeps at most one refresher: a former one is stopped. -/
def setRefresher (w : World) (name : String) (h : NamedHolder) (refresher : Option Nat) : World :=
  let w := match h.refresher with
    | none => w
    | some task => w.removeTask task
  { w with holders := (name, { h with refresher }) :: w.holders }

def openLedger (w : World) (id : Nat) (name table : String) (options : TableOptions) : World :=
  match Ledger.open? table options with
  | .error fault => w.finish id (.ledgerFault fault)
  | .ok l =>
    let cell := w.cells.lifecycles.size
    { w with
      cells := { w.cells with lifecycles := w.cells.lifecycles.push .uninitialized }
      ledgers := (name, l, cell) :: w.ledgers }.finish id (.ledger l .uninitialized)

def openLocks (w : World) (id : Nat) (name table : String) (options : TableOptions) : World :=
  match LockTable.open? table options with
  | .error fault => w.finish id (.ledgerFault fault)
  | .ok l => { w with locks := (name, l) :: w.locks }.finish id (.locks l)

def openHolder (w : World) (id : Nat) (name locks key owner : String) (options : LockOptions) :
    World :=
  match w.locks.lookup locks with
  | none => w.finish id noLocks
  | some l =>
    let cell := w.cells.holds.size
    let holder : Holder := ⟨l, key, owner, options⟩
    { w with
      cells := { w.cells with holds := w.cells.holds.push {} }
      holders := (name, ⟨holder, cell, none⟩) :: w.holders }.finish id (.holder holder)

def ledgerText (l : Ledger) (k : Lifecycle) : String :=
  let state := match k with
    | .uninitialized => "Uninitialized"
    | .initializing => "Initializing"
    | .ready => "Ready"
  "ChangeEntryRepository \x7b table: " ++ quoted l.table ++ ", lifecycle: " ++ state ++ " \x7d"

def holderText (h : Holder) (k : Hold) : String :=
  let expiry := k.expiresAt.elim "None" fun i => "Some(" ++ i.text ++ ")"
  "LockManager \x7b key: " ++ quoted h.key ++ ", owner: " ++ quoted h.owner ++
    ", state: HeldState \x7b expires_at: " ++ expiry ++ ", released: " ++ toString k.released ++
    " \x7d \x7d"

def storeText : Backend → String
  | .bench b => "MemoryStore \x7b table_count: " ++ toString b.memory.tables.size ++ " \x7d"
  | .server space _ => "RedisStore \x7b prefix: " ++ quoted space ++ " \x7d"

/-- A change to the store in memory that takes no time, and what it answers. -/
def poke (w : World) (id : Nat) (f : Bench → Outcome × Bench) : World :=
  match w.backend with
  | .bench b =>
    let (outcome, b) := f b
    (w.setBench b).finish id outcome
  | .server .. => w.finish id .nothing

def set (w : World) (id : Nat) (f : Bench → Bench) : World := (w.onBench f).finish id .nothing

/-- Starts a step as a task; with no task left to run it has ended. -/
def start (w : World) (id : Nat) : Step → World
  | .call c => w.launchAlone id ⟨fun _ k => (k, none), inquiry c fun x => x⟩ (Outcome.ofAnswer c)
  | .createActive table schema =>
    w.set id fun b => { b with memory := b.memory.createActive table schema w.wallNow }
  | .drop table =>
    w.poke id fun b =>
      (.flag (b.memory.tables.contains table), { b with memory := b.memory.drop table })
  | .itemCount table => w.poke id fun b => (.count (b.memory.itemCount table), b)
  | .rawItem table key => w.poke id fun b => (.item (b.memory.item? table key), b)
  | .failNext fault => w.set id fun b => { b with queued := b.queued ++ [fault] }
  | .setLatency millis => w.set id fun b => { b with latency := millis }
  | .setActivationPolls polls =>
    w.set id fun b => { b with memory := { b.memory with activationPolls := polls } }
  | .hook h => w.set id fun b => { b with hooks := b.hooks ++ [h] }
  | .setWall wall => { w with wall }.finish id .nothing
  | .setKey key value => (w.onServer (·.setKey key value)).finish id .nothing
  | .spoil fault =>
    (w.onServer fun s => { s with faults := s.faults ++ [fault] }).finish id .nothing
  | .unloadScript => (w.onServer fun s => { s with scriptLoaded := false }).finish id .nothing
  | .provision p none => w.launchAlone id p.ensure (.ofLedger fun _ => .nothing)
  | .provision p (some after) =>
    w.launchAlone id (p.ensureWithin after) (.ofLedger fun _ => .nothing)
  | .openLedger name table options => w.openLedger id name table options
  | .lifecycle name =>
    match w.ledgers.lookup name with
    | none => w.finish id noLedger
    | some (_, cell) => w.finish id (.lifecycle (w.cells.lifecycles.getD cell default))
  | .prepare name allowCreate after =>
    w.launchOnLedger id name
      (fun l => l.prepare allowCreate (after.getD l.options.operationTimeout))
      (.ofLedger fun _ => .nothing)
  | .save name item after =>
    match Entry.ofItem item with
    | .error fault => w.finish id (.ledgerFault fault)
    | .ok e =>
      w.launchOnLedger id name (fun l => l.save e (after.getD l.options.operationTimeout))
        (.ofLedger fun _ => .nothing)
  | .list name after =>
    w.launchOnLedger id name (fun l => l.list (after.getD l.options.operationTimeout))
      (.ofLedger .entries)
  | .listExecuted name =>
    w.launchOnLedger id name (fun l => l.list l.options.operationTimeout)
      (.ofLedger fun es => .entries (Ledger.executedOf es))
  | .find name changeId =>
    w.launchOnLedger id name (fun l => l.find changeId) (.ofLedger .entry)
  | .isExecuted name changeId author =>
    w.launchOnLedger id name (fun l => l.find changeId)
      (.ofLedger fun e => .flag (Ledger.isExecutedBy author e))
  | .openLocks name table options => w.openLocks id name table options
  | .prepareLocks name allowCreate =>
    w.launchOnLocks id name (fun l => l.prepare allowCreate) (.ofLedger fun _ => .nothing)
  | .findLease name key => w.launchOnLocks id name (fun l => l.find key) (.ofLease .lease)
  | .take name source =>
    match w.leaseOf source with
    | .error fault => w.finish id (.leaseFault fault)
    | .ok lease => w.launchOnLocks id name (fun l => l.take lease) (.ofLease fun _ => .nothing)
  | .extend name source =>
    match w.leaseOf source with
    | .error fault => w.finish id (.leaseFault fault)
    | .ok lease => w.launchOnLocks id name (fun l => l.extend lease) (.ofLease fun _ => .nothing)
  | .giveBack name key owner =>
    w.launchOnLocks id name (fun l => l.giveBack key owner) (.ofLease .flag)
  | .openHolder name locks key owner options => w.openHolder id name locks key owner options
  | .acquire name =>
    w.onHolder id name fun h =>
      w.launchOnHold id h.cell h.holder.acquire (.ofLease fun _ => .nothing)
  | .ensure name =>
    w.onHolder id name fun h =>
      w.launchOnHold id h.cell h.holder.ensure (.ofLease fun _ => .nothing)
  | .release name =>
    w.onHolder id name fun h =>
      (w.setRefresher name h none).launchOnHold id h.cell h.holder.release fun _ => .nothing
  | .startRefresher name =>
    w.onHolder id name fun h =>
      let task := w.nextTask
      let w := w.setRefresher name h (some task)
      let w := { w with nextTask := task + 1 }
      (w.launchOnHold task h.cell h.holder.refresh fun _ => .nothing).finish id .nothing
  | .held name =>
    w.onHolder id name fun h =>
      let k := w.cells.holds.getD h.cell default
      w.finish id (.hold (k.isHeldAt w.wallNow) k.expiresAt)
  | .showStore => w.finish id (.shown (storeText w.backend))
  | .showLedger name =>
    match w.ledgers.lookup name with
    | none => w.finish id noLedger
    | some (l, cell) =>
      w.finish id (.shown (ledgerText l (w.cells.lifecycles.getD cell default)))
  | .showHolder name =>
    w.onHolder id name fun h =>
      w.finish id (.shown (holderText h.holder (w.cells.holds.getD h.cell default)))
  | .advance millis =>
    w.launchAlone id ⟨fun _ k => (k, false), pause (.ofMillis millis)⟩ fun _ => .nothing
  | .together _ => w.finish id .nothing

end MigrationLedger.Scenario.World
