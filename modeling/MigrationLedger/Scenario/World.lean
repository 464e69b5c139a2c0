import MigrationLedger.Memory
import MigrationLedger.Redis.Store
import MigrationLedger.Scenario.Step

/-! The world of a scripted run: a clock, a store, named objects, and the operations under way. A
store in memory can be made slow, made to fail, and watched. -/

namespace MigrationLedger.Scenario

/-- A store in memory with injected latency, failures and hooks. -/
structure Bench where
  memory : Memory := {}
  /-- Failures of the next calls, one each. -/
  queued : List StoreFault := []
  latency : Nat := 0
  hooks : List Hook := []
  /-- The calls made and when, the latest first. -/
  trace : List (Nat × Call) := []

inductive Backend where
  | bench (b : Bench)
  | server (space : String) (s : Redis.Server)

/-- What operations share: the lifecycle of each ledger, the lease of each holder. -/
structure Cells where
  lifecycles : Array Lifecycle := #[]
  holds : Array Hold := #[]

/-- An operation under way, with the cell that it shares. -/
structure Activity where
  {κ σ α : Type}
  machine : Machine κ σ α
  read : Cells → κ
  write : κ → Cells → Cells
  conclude : α → Outcome
  state : σ

/-- What a task waits for. -/
inductive Stage where
  /-- Nothing: it is about to move. -/
  | ready
  | resting
  | hookSleep (action : HookAction)
  /-- The put of a hook, with the failure that it will meet. -/
  | hookPut (action : HookAction) (fault : Option StoreFault)
  /-- The store, with the failure that it will report and what it will add to a page. -/
  | entering (fault : Option StoreFault) (append : List Item)

inductive Work where
  | delayed (step : Step)
  | active (a : Activity) (stage : Stage)

structure Task where
  id : Nat
  work : Work
  /-- When the wait ends. -/
  wake : Nat

structure NamedHolder where
  holder : Holder
  cell : Nat
  refresher : Option Nat := none

structure World where
  backend : Backend
  /-- The time of day at the start of the run. -/
  wall : Instant
  /-- Whether the time of day stands still while the run goes on. -/
  wallStands : Bool := false
  /-- Milliseconds since the start of the run. -/
  now : Nat := 0
  cells : Cells := {}
  ledgers : List (String × Ledger × Nat) := []
  locks : List (String × LockTable) := []
  holders : List (String × NamedHolder) := []
  tasks : List Task := []
  /-- Tasks that have ended, what came out, and when. -/
  ended : List (Nat × Outcome × Nat) := []
  nextTask : Nat := 0

namespace World

def wallNow (w : World) : Instant :=
  if w.wallStands then w.wall else w.wall.shift (Span.ofMillis w.now).nanos

def moment (w : World) : Moment := ⟨.ofMillis w.now, w.wallNow⟩

def finish (w : World) (id : Nat) (outcome : Outcome) : World :=
  { w with ended := (id, outcome, w.now) :: w.ended }

def addTask (w : World) (t : Task) : World := { w with tasks := w.tasks ++ [t] }

def removeTask (w : World) (id : Nat) : World := { w with tasks := w.tasks.filter (·.id ≠ id) }

def setBench (w : World) (b : Bench) : World := { w with backend := .bench b }

def onBench (w : World) (f : Bench → Bench) : World :=
  match w.backend with
  | .bench b => w.setBench (f b)
  | .server .. => w

def onServer (w : World) (f : Redis.Server → Redis.Server) : World :=
  match w.backend with
  | .bench _ => w
  | .server space s => { w with backend := .server space (f s) }

end World

end MigrationLedger.Scenario
