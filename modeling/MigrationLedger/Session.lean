import MigrationLedger.Console
import MigrationLedger.Process
import MigrationLedger.Redis.Store
import MigrationLedger.Settings
import MigrationLedger.View

/-! One operator's session with a server: operations run one after the other, nobody else uses the
server meanwhile, and what is said to the operator is collected. A fault ends the session. -/

namespace MigrationLedger

inductive SessionFault where
  | badSettings (path : String) (fault : SettingsFault)
  | noAddress (fault : SettingsFault)
  | unreachable
  | ledger (fault : LedgerFault)
  | lease (fault : LeaseFault)
  | unusableLedger (table : String) (fault : LedgerFault)
  | unusableLocks (table : String) (fault : LedgerFault)
  | notLocked (fault : LeaseFault)
  | changePending (changeId : String)
  | unknownChange (changeId : String)
  | otherOwner (key owner : String)
  /-- An operation made more moves than any may. -/
  | endless
  deriving DecidableEq, Repr, Inhabited

/-- The reason of an unreadable file is named a second time, as the cause. -/
def SettingsFault.messageWithCause (fault : SettingsFault) : String :=
  match fault with
  | unreadable _ reason => fault.message ++ ": " ++ reason
  | fault => fault.message

def SessionFault.message : SessionFault → String
  | badSettings path fault => s!"Failed to load {path}: " ++ fault.messageWithCause
  | noAddress fault => fault.message
  | unreachable => "Failed to connect to Redis: " ++ Redis.refusalText
  | ledger fault => fault.message
  | lease fault => fault.message
  | unusableLedger table fault =>
    s!"Change entry table '{table}' is not usable; run 'changeledger init': " ++ fault.message
  | unusableLocks table fault =>
    s!"Lock table '{table}' is not usable; run 'changeledger init': " ++ fault.message
  | notLocked fault => "Another run holds the migration lock: " ++ fault.message
  | changePending id => s!"change '{id}' is pending"
  | unknownChange id => s!"change '{id}' not found"
  | otherOwner key owner => s!"lock '{key}' not held by '{owner}'"
  | endless => "the operation does not end"

structure Session where
  console : Console
  /-- What the names of keys begin with. -/
  space : String
  server : Redis.Server
  /-- The time of day, which stands still during a session. -/
  wall : Instant
  elapsed : Span := .zero
  printed : Printed := {}

namespace Session

def moment (s : Session) : Moment := ⟨s.elapsed, s.wall⟩

/-- Moves an operation on to its end. A rest takes its time, but not beyond the time limit. -/
def pursue {κ σ α : Type} (m : Machine κ σ α) :
    (moves : Nat) → Session → κ → σ → EStateM.Result SessionFault Session (α × κ)
  | 0, s, _, _ => .error .endless s
  | moves + 1, s, k, state =>
    match m.next state with
    | .done answer => .ok (answer, k) s
    | .call c resume =>
      let (x, server) := Redis.perform s.space s.wall s.server c
      let s := { s with server }
      let (k, state) := resume s.moment k x
      pursue m moves s k state
    | .rest length resume =>
      let wake := s.elapsed.add length
      match m.limit state with
      | some limit =>
        if limit ≤ s.elapsed ∨ limit < wake then
          let s := { s with elapsed := s.elapsed.max limit }
          let (k, state) := m.expire s.moment k state
          pursue m moves s k state
        else
          let s := { s with elapsed := wake }
          let (k, state) := resume s.moment k
          pursue m moves s k state
      | none =>
        let s := { s with elapsed := wake }
        let (k, state) := resume s.moment k
        pursue m moves s k state

/-- More moves than any operation makes. -/
def moveLimit : Nat := Nat.pow 10 15

end Session

abbrev Conversation (α : Type) : Type := EStateM SessionFault Session α

namespace Conversation

def tell (f : Console → Printed) : Conversation Unit :=
  modify fun s => { s with printed := s.printed ++ f s.console }

def say (t : Tone) (message : String) : Conversation Unit := tell (·.say t message)

def progress (message : String) : Conversation Unit := tell (·.progress message)

def clearLine : Conversation Unit := tell Console.clearLine

def display (v : View) : Conversation Unit := tell (·.display v)

/-- Runs an operation that shares the cell `k`. -/
def perform {κ σ α : Type} (op : Operation κ σ α) (k : κ) : Conversation (α × κ) := fun s =>
  let (k, state) := op.start s.moment k
  s.pursue op.machine Session.moveLimit k state

/-- Goes on with an answer, or ends the session with its fault. -/
def orFail {ε α : Type} (fault : ε → SessionFault) : Except ε α → Conversation α
  | .ok a => pure a
  | .error e => throw (fault e)

end Conversation

end MigrationLedger
