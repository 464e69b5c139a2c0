import MigrationLedger.CommandLine
import MigrationLedger.Identifier
import MigrationLedger.Recording
import MigrationLedger.Session

/-! How each command is carried out. -/

namespace MigrationLedger.Command

open Conversation

/-- What a run finds around it. -/
structure Surroundings where
  files : String → Settings.Source
  environment : List (String × String)
  host : String
  /-- The random part of the identifiers of this run. -/
  random : String
  /-- Whether the server answers at an address. -/
  answers : String → Bool

def connect (e : Surroundings) (s : Settings) : Conversation Unit := do
  let url ← orFail .noAddress (s.redisUrl e.environment)
  if !e.answers url then throw .unreachable

def openLedger (s : Settings) : Conversation Ledger :=
  orFail .ledger (Ledger.open? s.ledger.table s.tableOptions)

def openLocks (s : Settings) : Conversation LockTable :=
  orFail .ledger (LockTable.open? s.lock.table s.tableOptions)

/-- Makes sure that the ledger is ready, without creating its table. -/
def makeReady (l : Ledger) : Conversation Lifecycle := do
  let (answer, k) ← perform (l.prepare false l.options.operationTimeout) .uninitialized
  orFail (.unusableLedger l.table) answer
  return k

def readyLedger (e : Surroundings) (s : Settings) : Conversation (Ledger × Lifecycle) := do
  connect e s
  let l ← openLedger s
  return (l, ← makeReady l)

def readyLocks (s : Settings) : Conversation LockTable := do
  let l ← openLocks s
  let (answer, _) ← perform (l.prepare false) ()
  orFail (.unusableLocks l.table) answer
  return l

def creationHint : String :=
  "Re-run without --no-create (and with ledger.allow_create = true) to create it."

/-- Says why a table cannot be used, and what may help. -/
def complain (mayCreate : Bool) (answer : Except LedgerFault Unit) : Conversation Unit := do
  if let .error fault := answer then
    say .failure fault.message
    if !mayCreate then say .info creationHint
    throw (.ledger fault)

def runInit (e : Surroundings) (s : Settings) (path : String) (verify : Bool) :
    Conversation Unit := do
  let mayCreate := s.ledger.allowCreate && !verify
  say .detail s!"config: {path}"
  connect e s
  let l ← openLedger s
  let locks ← openLocks s
  progress s!"Checking table '{l.table}'"
  let (answer, _) ← perform (l.prepare mayCreate l.options.operationTimeout) .uninitialized
  clearLine
  complain mayCreate answer
  say .success s!"Change entry table '{l.table}' is ready"
  progress s!"Checking lock table '{locks.table}'"
  let (answer, _) ← perform (locks.prepare mayCreate) ()
  clearLine
  complain mayCreate answer
  say .success s!"Lock table '{locks.table}' is ready"

def runLog (e : Surroundings) (s : Settings) (executedOnly : Bool) : Conversation Unit := do
  let (l, k) ← readyLedger e s
  progress "Scanning change entries"
  let (answer, _) ← perform (l.list l.options.operationTimeout) k
  clearLine
  let all ← orFail .ledger answer
  let entries := if executedOnly then Ledger.executedOf all else all
  say .detail (toString entries.length ++ s!" entries in '{l.table}'")
  display (.ofEntries entries)

def runFind (e : Surroundings) (s : Settings) (changeId : String) (executedBy : Option String) :
    Conversation Unit := do
  let (l, k) ← readyLedger e s
  let (answer, _) ← perform (l.find changeId) k
  let found ← orFail .ledger answer
  match executedBy with
  | some author =>
    if Ledger.isExecutedBy author found then
      say .success s!"'{changeId}' by {author} already executed"
    else
      say .warning s!"'{changeId}' by {author} has not executed"
      throw (.changePending changeId)
  | none =>
    match found with
    | some entry => display (.entry entry)
    | none =>
      say .warning s!"No entry recorded for '{changeId}'"
      throw (.unknownChange changeId)

/-- The entry of a request that is carried out at `now`. -/
def entryOf (e : Surroundings) (r : RecordRequest) (now : Instant) : Entry where
  changeId := r.changeId
  executionId := r.executionId.getD (Identifier.execution e.random)
  author := r.author
  changeLogClass := r.changeLogClass
  changeSetMethod := r.changeSetMethod
  state := some r.state
  timestamp := now
  executionMillis := r.executionMillis
  executionHostname := e.host

def recordFault : Recording.Fault → SessionFault
  | .notAcquired fault => .notLocked fault
  | .notSaved fault => .ledger fault

def runRecord (e : Surroundings) (s : Settings) (r : RecordRequest) : Conversation Unit := do
  connect e s
  let locks ← readyLocks s
  let l ← openLedger s
  let k ← makeReady l
  let entry := entryOf e r (← get).wall
  say .detail ("execution id " ++ entry.executionId)
  let holder : Holder := ⟨locks, s.lock.key, Identifier.owner e.host e.random, s.lockOptions⟩
  say .detail ("lock owner " ++ holder.owner)
  progress s!"Waiting for lock '{holder.key}'"
  let (answer, _) ← perform (Recording.operation ⟨holder, l, entry⟩) (k, {})
  clearLine
  orFail recordFault answer
  say .success s!"Recorded '{r.changeId}' in '{l.table}'"

def runLockStatus (e : Surroundings) (s : Settings) : Conversation Unit := do
  connect e s
  let locks ← readyLocks s
  let key := s.lock.key
  let (answer, _) ← perform (locks.find key) ()
  match ← orFail .lease answer with
  | some lease => display (.ofLease lease (← get).wall)
  | none => say .info s!"Lock '{key}' has never been taken"

def runLockRelease (e : Surroundings) (s : Settings) (owner : String) : Conversation Unit := do
  connect e s
  let locks ← readyLocks s
  let key := s.lock.key
  let (answer, _) ← perform (locks.giveBack key owner) ()
  if ← orFail .lease answer then
    say .success s!"Released lock '{key}' held by '{owner}'"
  else
    say .warning s!"Lock '{key}' is not held by '{owner}'"
    throw (.otherOwner key owner)

/-- Carries out a command with settings that were read from `path`. -/
def run (e : Surroundings) (s : Settings) (path : String) : Command → Conversation Unit
  | .init verify => runInit e s path verify
  | .log executedOnly => runLog e s executedOnly
  | .find changeId executedBy => runFind e s changeId executedBy
  | .record request => runRecord e s request
  | .lockStatus => runLockStatus e s
  | .lockRelease owner => runLockRelease e s owner

end MigrationLedger.Command
