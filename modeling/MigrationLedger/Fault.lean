import MigrationLedger.Instant.Text

/-! What can go wrong, by layer: the store, the ledger of changes, the lease on a lock, the
settings. Each fault knows its text, and whether trying again may help. -/

namespace MigrationLedger

inductive StoreFault where
  | missingTable (table : String)
  | tableExists (table : String)
  /-- The condition of a put did not hold. -/
  | unmet
  | unavailable (reason : String)
  | backend (reason : String)
  /-- What is stored, or was to be stored, could not be read or written. -/
  | codec (reason : String)
  deriving DecidableEq, Repr, Inhabited

def StoreFault.message : StoreFault → String
  | missingTable t => s!"table '{t}' not found"
  | tableExists t => s!"table '{t}' already exists"
  | unmet => "conditional check failed"
  | unavailable reason => s!"unavailable: {reason}"
  | backend reason => reason
  | codec reason => s!"codec error: {reason}"

inductive LedgerFault where
  /-- The table is missing or has another key, and may not be created. -/
  | creationRefused (table : String)
  | notInitialized (table : String)
  | timeout (operation table : String) (after : Span)
  | unavailable (reason : String)
  | backend (reason : String)
  | invalidEntry (reason : String)
  | invalidTableName (table : String)
  deriving DecidableEq, Repr, Inhabited

namespace LedgerFault

def message : LedgerFault → String
  | creationRefused t =>
    s!"Table creation not allowed, but not created or wrongly created for table '{t}'"
  | notInitialized t => s!"change entry table '{t}' is not initialized"
  | timeout operation t after => s!"{operation} on table '{t}' timed out after " ++ after.text
  | unavailable reason => s!"backend unavailable: {reason}"
  | backend reason => s!"backend error: {reason}"
  | invalidEntry reason => s!"invalid change entry: {reason}"
  | invalidTableName t => s!"invalid table name '{t}'"

def isRetryable : LedgerFault → Bool
  | unavailable _ | timeout .. => true
  | _ => false

def ofStore : StoreFault → LedgerFault
  | .missingTable t => notInitialized t
  | .unavailable reason => unavailable reason
  | .codec reason => invalidEntry reason
  | fault => backend fault.message

end LedgerFault

inductive LeaseFault where
  | heldByOther (key owner : String) (expiry : Instant)
  | quitTrying (key : String) (after : Span)
  /-- The holder gave the lock up and is spent. -/
  | released (key : String)
  | lost (key : String)
  | invalidRecord (reason : String)
  | ledger (fault : LedgerFault)
  /-- A length of time or a point in time left the range of the clocks. -/
  | overflow
  deriving DecidableEq, Repr, Inhabited

namespace LeaseFault

def message : LeaseFault → String
  | heldByOther key owner expiry => s!"lock '{key}' is held by '{owner}' until " ++ expiry.longText
  | quitTrying key after => s!"gave up acquiring lock '{key}' after " ++ after.text
  | released key => s!"lock '{key}' cannot be used after being released"
  | lost key => s!"lock '{key}' is no longer held by this owner"
  | invalidRecord reason => s!"invalid lock record: {reason}"
  | ledger fault => fault.message
  | overflow => "time arithmetic out of range"

def isRetryable : LeaseFault → Bool
  | heldByOther .. => true
  | ledger fault => fault.isRetryable
  | _ => false

def ofStore (fault : StoreFault) : LeaseFault := ledger (.ofStore fault)

end LeaseFault

inductive SettingsFault where
  | unreadable (path reason : String)
  | malformed
  | missingVariable (name : String)
  | invalid (field reason : String)
  deriving DecidableEq, Repr, Inhabited

def SettingsFault.message : SettingsFault → String
  | unreadable path reason => s!"failed to read config file {path}: {reason}"
  | malformed => "failed to parse config"
  | missingVariable name => s!"environment variable {name} not set"
  | invalid field reason => s!"invalid config value for {field}: {reason}"

end MigrationLedger
