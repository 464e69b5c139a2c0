import MigrationLedger.Scenario.Start

/-! Running the tasks of a world on virtual time. When every task waits, time jumps to the next
moment at which one has something to do: at the end of its wait, or at its time limit, whichever
comes first. At one and the same moment the end of the wait comes first. -/

namespace MigrationLedger.Scenario

def Activity.limit (a : Activity) : Option Nat := (a.machine.limit a.state).map Span.millisUp

/-- When a waiting task has something to do. A task that is about to move does not wait. -/
def Task.due? (t : Task) : Option Nat :=
  match t.work with
  | .delayed _ => some t.wake
  | .active _ .ready => none
  | .active a _ => some (a.limit.elim t.wake (min t.wake))

def Task.isBefore (t u : Task) : Bool :=
  match t.due?, u.due? with
  | none, some _ => true
  | some m, some n => m < n
  | _, none => false

/-- The task that is due first; of several, the one that has waited longest. -/
def soonest : List Task → Option Task
  | [] => none
  | t :: ts =>
    match soonest ts with
    | none => some t
    | some u => if u.isBefore t then some u else some t

/-- The first hook for a call that is to be skipped no more fires, and the skips of those before it
are counted. -/
def fire (call : String) : List Hook → Option HookAction × List Hook
  | [] => (none, [])
  | h :: hs =>
    if h.call.all (· = call) then
      if 0 < h.skip then
        let (action, hs) := fire call hs
        (action, { h with skip := h.skip - 1 } :: hs)
      else (some h.action, if h.times ≤ 1 then hs else { h with times := h.times - 1 } :: hs)
    else
      let (action, hs) := fire call hs
      (action, h :: hs)

/-- Adds items to the page of a scan that went well. -/
def withItems (items : List Item) : (c : Call) → Answer c → Answer c
  | .scan .., .ok page => .ok { page with items := page.items ++ items }
  | _, x => x

namespace Bench

/-- Entering the store: the next failure is taken. -/
def takeFailure (b : Bench) : Option StoreFault × Bench :=
  match b.queued with
  | [] => (none, b)
  | fault :: rest => (some fault, { b with queued := rest })

/-- The part of a hook that changes tables. -/
def rearrange (b : Bench) (action : HookAction) (now : Instant) : Bench :=
  let m := action.drop.elim b.memory b.memory.drop
  let m := action.create.elim m fun (table, schema) => m.createActive table schema now
  { b with memory := m }

def perform (b : Bench) (now : Instant) (fault : Option StoreFault) (append : List Item)
    (c : Call) : Answer c × Bench :=
  match fault with
  | some fault => (.error fault, b)
  | none =>
    let (x, m) := b.memory.perform now c
    (withItems append c x, { b with memory := m })

end Bench

namespace World

def addActive (w : World) (id : Nat) (a : Activity) (stage : Stage) (wake : Nat) : World :=
  w.addTask ⟨id, .active a stage, wake⟩

/-- Puts an operation into the state where a step of it leads. -/
def continueWith (w : World) (id : Nat) (a : Activity) (s : a.κ × a.σ) : World :=
  { w with cells := a.write s.1 w.cells }.addActive id { a with state := s.2 } .ready w.now

def expire (w : World) (id : Nat) (a : Activity) : World :=
  w.continueWith id a (a.machine.expire w.moment (a.read w.cells) a.state)

/-- Waits, unless the time limit has come. -/
def await (w : World) (id : Nat) (a : Activity) (stage : Stage) (wake : Nat) : World :=
  if a.limit.any (· ≤ w.now) then w.expire id a else w.addActive id a stage wake

/-- Gives an operation the answer of the call that it waits for. -/
def answer (w : World) (id : Nat) (a : Activity)
    (ask : World → (c : Call) → Answer c × World) : World :=
  match a.machine.next a.state with
  | .call c resume =>
    let (x, w) := ask w c
    w.continueWith id a (resume w.moment (a.read w.cells) x)
  | _ => w

def enter (w : World) (b : Bench) (id : Nat) (a : Activity) (append : List Item) : World :=
  let (fault, b) := b.takeFailure
  (w.setBench b).await id a (.entering fault append) (w.now + b.latency)

/-- What follows the put of a hook. -/
def afterHookPut (w : World) (b : Bench) (id : Nat) (a : Activity) (action : HookAction) : World :=
  match action.fail with
  | some fault => (w.setBench b).answer id a fun w _ => (.error fault, w)
  | none => w.enter b id a action.append

/-- What follows the sleep of a hook. -/
def afterHookSleep (w : World) (b : Bench) (id : Nat) (a : Activity) (action : HookAction) :
    World :=
  let b := b.rearrange action w.wallNow
  match action.put with
  | none => w.afterHookPut b id a action
  | some _ =>
    let (fault, b) := b.takeFailure
    (w.setBench b).await id a (.hookPut action fault) (w.now + b.latency)

def makeCall (w : World) (id : Nat) (a : Activity) (c : Call) : World :=
  match w.backend with
  | .server .. =>
    w.answer id a fun w c =>
      match w.backend with
      | .server space s =>
        let (x, s) := Redis.perform space w.wallNow s c
        (x, { w with backend := .server space s })
      | .bench _ => (.error default, w)
  | .bench b =>
    let (action, hooks) := fire c.name b.hooks
    let b := { b with hooks, trace := (w.now, c) :: b.trace }
    match action with
    | none => w.enter b id a []
    | some action =>
      if action.sleep = 0 then w.afterHookSleep b id a action
      else (w.setBench b).await id a (.hookSleep action) (w.now + action.sleep)

/-- The next move of an operation that waits for nothing. -/
def move (w : World) (id : Nat) (a : Activity) : World :=
  match a.machine.next a.state with
  | .done x => w.finish id (a.conclude x)
  | .rest length _ => w.await id a .resting (w.now + length.millisUp)
  | .call c _ => w.makeCall id a c

/-- The end of a wait. -/
def wake (w : World) (id : Nat) (a : Activity) (stage : Stage) : World :=
  match stage, w.backend with
  | .resting, _ =>
    match a.machine.next a.state with
    | .rest _ resume => w.continueWith id a (resume w.moment (a.read w.cells))
    | _ => w
  | .hookSleep action, .bench b => w.afterHookSleep b id a action
  | .hookPut action fault, .bench b =>
    let b := match fault, action.put with
      | none, some (table, item) => (b.perform w.wallNow none [] (.putItem table item none)).2
      | _, _ => b
    w.afterHookPut b id a action
  | .entering fault append, .bench b =>
    w.answer id a fun w c =>
      let (x, b) := b.perform w.wallNow fault append c
      (x, w.setBench b)
  | _, _ => w

def process (w : World) (t : Task) : World :=
  match t.work with
  | .delayed step => w.start t.id step
  | .active a .ready => w.move t.id a
  | .active a stage => if t.wake ≤ w.now then w.wake t.id a stage else w.expire t.id a

def outcomeOf? (w : World) (id : Nat) : Option (Outcome × Nat) := w.ended.lookup id

/-- Runs until the given tasks have ended, for at most that many moves. -/
def runUntil (ids : List Nat) : (moves : Nat) → World → World
  | 0, w => w
  | moves + 1, w =>
    if ids.all fun id => (w.outcomeOf? id).isSome then w
    else match soonest w.tasks with
      | none => w
      | some t =>
        runUntil ids moves (({ w with now := max w.now (t.due?.getD 0) }.removeTask t.id).process t)

/-- More moves than any run makes. -/
def moveLimit : Nat := Nat.pow 10 15

def results (w : World) (ids : List Nat) : List (Outcome × Nat) :=
  ids.map fun id => (w.outcomeOf? id).getD (.nothing, w.now)

def startTogether (w : World) : List (Nat × Step) → List Nat × World
  | [] => ([], w)
  | (delay, step) :: rest =>
    let id := w.nextTask
    let w := { w with nextTask := id + 1 }.addTask ⟨id, .delayed step, w.now + delay⟩
    let (ids, w) := w.startTogether rest
    (id :: ids, w)

/-- Runs one step to its end; tasks in the background go on meanwhile. -/
def runStep (w : World) (step : Step) : Outcome × World :=
  match step with
  | .together tasks =>
    let (ids, w) := w.startTogether tasks
    let w := w.runUntil ids moveLimit
    (.together (w.results ids), { w with ended := [] })
  | step =>
    let id := w.nextTask
    let w := ({ w with nextTask := id + 1 }.start id step).runUntil [id] moveLimit
    (((w.outcomeOf? id).map (·.1)).getD .nothing, { w with ended := [] })

end World

end MigrationLedger.Scenario
