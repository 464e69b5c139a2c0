import MigrationLedger.Holder
import MigrationLedger.Toml.Reader

/-! Settings, in three sections of a TOML document. What is missing has a default, and what is
unknown is passed over. -/

namespace MigrationLedger

structure LedgerSettings where
  table : String := "migrationChangeLog"
  allowCreate : Bool := true
  operationTimeoutMs : Nat := 30000
  readyPollIntervalMs : Nat := 200
  scanPageSize : Nat := 100
  conflictBackoffMs : Nat := 5
  deriving DecidableEq, Repr, Inhabited

structure LockSettings where
  table : String := "migrationLock"
  key : String := "DEFAULT_KEY"
  acquiredForMs : Nat := 60000
  quitTryingAfterMs : Nat := 180000
  tryFrequencyMs : Nat := 1000
  deriving DecidableEq, Repr, Inhabited

structure RedisSettings where
  url : String := "$\x7bREDIS_URL\x7d"
  keyPrefix : String := "changeledger"
  deriving DecidableEq, Repr, Inhabited

structure Settings where
  ledger : LedgerSettings := {}
  lock : LockSettings := {}
  redis : RedisSettings := {}
  deriving DecidableEq, Repr, Inhabited

namespace Settings

def defaultFile : String := "changeledger.toml"

/-- The fields of a section, each by its name and its place. -/
abbrev Section : Type := String → Nat → Option Toml

/-- A section is a table, or a list of its fields in order; surplus ones do not count. A moment has
no such fields. -/
def section? : Toml → Option Section
  | .closed fields | .table _ fields => some fun name _ => fields.lookup name
  | .array items => some fun _ place => items[place]?
  | .tables items =>
    some fun _ place => items.reverse[place]?.map fun fields => .table .defined fields
  | .moment => some fun _ _ => none
  | _ => none

def sectionAt (fields : Toml.Fields) (name : String) : Option Section :=
  match fields.lookup name with
  | none => some fun _ _ => none
  | some t => section? t

def text (s : Section) (name : String) (place : Nat) (absent : String) : Option String :=
  match s name place with
  | none => some absent
  | some (.text t) => some t
  | some _ => none

def flag (s : Section) (name : String) (place : Nat) (absent : Bool) : Option Bool :=
  match s name place with
  | none => some absent
  | some (.flag b) => some b
  | some _ => none

def natural (s : Section) (name : String) (place : Nat) (absent : Nat) : Option Nat :=
  match s name place with
  | none => some absent
  | some (.integer (.ofNat n)) => some n
  | some _ => none

def ledgerOf (s : Section) : Option LedgerSettings := do
  let d : LedgerSettings := {}
  some ⟨← text s "table" 0 d.table, ← flag s "allow_create" 1 d.allowCreate,
    ← natural s "operation_timeout_ms" 2 d.operationTimeoutMs,
    ← natural s "ready_poll_interval_ms" 3 d.readyPollIntervalMs,
    ← natural s "scan_page_size" 4 d.scanPageSize,
    ← natural s "conflict_backoff_ms" 5 d.conflictBackoffMs⟩

def lockOf (s : Section) : Option LockSettings := do
  let d : LockSettings := {}
  some ⟨← text s "table" 0 d.table, ← text s "key" 1 d.key,
    ← natural s "acquired_for_ms" 2 d.acquiredForMs,
    ← natural s "quit_trying_after_ms" 3 d.quitTryingAfterMs,
    ← natural s "try_frequency_ms" 4 d.tryFrequencyMs⟩

def redisOf (s : Section) : Option RedisSettings := do
  let d : RedisSettings := {}
  some ⟨← text s "url" 0 d.url, ← text s "prefix" 1 d.keyPrefix⟩

def ofToml (fields : Toml.Fields) : Option Settings := do
  some ⟨← ledgerOf (← sectionAt fields "ledger"), ← lockOf (← sectionAt fields "lock"),
    ← redisOf (← sectionAt fields "redis")⟩

/-- The first setting that cannot be used. -/
def flaw? (s : Settings) : Option SettingsFault :=
  let zero := "must be greater than zero"
  if s.ledger.operationTimeoutMs = 0 then some (.invalid "ledger.operation_timeout_ms" zero)
  else if s.ledger.readyPollIntervalMs = 0 then some (.invalid "ledger.ready_poll_interval_ms" zero)
  else if s.ledger.scanPageSize = 0 then some (.invalid "ledger.scan_page_size" zero)
  else if s.lock.acquiredForMs = 0 then some (.invalid "lock.acquired_for_ms" zero)
  else if s.lock.tryFrequencyMs = 0 then some (.invalid "lock.try_frequency_ms" zero)
  else if s.lock.key = "" then some (.invalid "lock.key" "must not be empty")
  else none

def read (text : String) : Except SettingsFault Settings :=
  match (Toml.read text).bind ofToml with
  | none => .error .malformed
  | some s =>
    match s.flaw? with
    | some fault => .error fault
    | none => .ok s

/-- What is found under the path of a settings file. -/
inductive Source where
  | absent
  | text (content : String)
  /-- Something that does not read as text, and why. -/
  | unreadable (reason : String)

/-- An absent file is a fault, unless it may be `optional`: then everything has its default. -/
def load (isOptional : Bool) (path : String) : Source → Except SettingsFault Settings
  | .absent =>
    if isOptional then .ok {}
    else .error (.unreadable path "No such file or directory (os error 2)")
  | .text content => read content
  | .unreadable reason => .error (.unreadable path reason)

/-- Names of variables are neither empty nor do they hold an equals sign. -/
def valueOf? (env : List (String × String)) (name : String) : Option String :=
  if name.isEmpty || name.toList.contains '=' then none else env.lookup name

/-- The name in a value that is `${name}` as a whole. -/
def reference? (value : String) : Option String :=
  match value.toList with
  | '$' :: '{' :: rest =>
    match rest.reverse with
    | '}' :: name => some (String.ofList name.reverse)
    | _ => none
  | _ => none

/-- The address of the server, looked up when it is a reference to a variable. -/
def redisUrl (s : Settings) (env : List (String × String)) : Except SettingsFault String :=
  match reference? s.redis.url with
  | none => .ok s.redis.url
  | some name =>
    match valueOf? env name with
    | some value => .ok value
    | none => .error (.missingVariable name)

def tableOptions (s : Settings) : TableOptions where
  operationTimeout := .ofMillis s.ledger.operationTimeoutMs
  readyPollInterval := .ofMillis s.ledger.readyPollIntervalMs
  scanPageSize := s.ledger.scanPageSize
  conflictBackoff := .ofMillis s.ledger.conflictBackoffMs

def lockOptions (s : Settings) : LockOptions where
  acquiredFor := .ofMillis s.lock.acquiredForMs
  quitTryingAfter := .ofMillis s.lock.quitTryingAfterMs
  tryFrequency := .ofMillis s.lock.tryFrequencyMs

def json (s : Settings) : Json :=
  .obj [
    ("ledger", .obj [("table", .str s.ledger.table), ("allow_create", .bool s.ledger.allowCreate),
      ("operation_timeout_ms", .ofNat s.ledger.operationTimeoutMs),
      ("ready_poll_interval_ms", .ofNat s.ledger.readyPollIntervalMs),
      ("scan_page_size", .ofNat s.ledger.scanPageSize),
      ("conflict_backoff_ms", .ofNat s.ledger.conflictBackoffMs)]),
    ("lock", .obj [("table", .str s.lock.table), ("key", .str s.lock.key),
      ("acquired_for_ms", .ofNat s.lock.acquiredForMs),
      ("quit_trying_after_ms", .ofNat s.lock.quitTryingAfterMs),
      ("try_frequency_ms", .ofNat s.lock.tryFrequencyMs)]),
    ("redis", .obj [("url", .str s.redis.url), ("prefix", .str s.redis.keyPrefix)])]

end Settings

end MigrationLedger
