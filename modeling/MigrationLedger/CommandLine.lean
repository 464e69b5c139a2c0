import MigrationLedger.Console
import MigrationLedger.Settings
import MigrationLedger.Usage

/-! The command line of the program: its commands with their options, and what a line asks for. -/

namespace MigrationLedger

/-- An entry to be recorded by hand. -/
structure RecordRequest where
  changeId : String
  author : String
  changeLogClass : String
  changeSetMethod : String := ""
  state : ChangeState := .executed
  executionId : Option String := none
  executionMillis : Nat := 0
  deriving DecidableEq, Repr, Inhabited

inductive Command where
  /-- Makes sure of the tables, and creates none if it is only to `verify`. -/
  | init (verify : Bool)
  | log (executedOnly : Bool)
  /-- Finds one entry, or asks whether that author has executed the change. -/
  | find (changeId : String) (executedBy : Option String)
  | record (request : RecordRequest)
  | lockStatus
  | lockRelease (owner : String)
  deriving DecidableEq, Repr, Inhabited

/-- What a command line asks for. -/
structure Invocation where
  settingsFile : String
  table : Option String
  format : OutputFormat
  quiet : Bool
  verbose : Bool
  plain : Bool
  command : Command
  deriving DecidableEq, Repr, Inhabited

namespace CommandLine

def programName : String := "changeledger"

def settingsVariable : String := "CHANGELEDGER_CONFIG"

def stateWords : List (String × ChangeState) :=
  [("executed", .executed), ("failed", .failed), ("rolled-back", .rolledBack),
    ("rollback-failed", .rollbackFailed), ("ignored", .ignored)]

def helpFlag : Parameter := ⟨"help", some 'h', .help, "Print help"⟩

/-- Options that every command takes. -/
def shared : List Parameter :=
  [⟨"config", some 'c', .value .path, "Config file"⟩,
    ⟨"table", none, .value .text, "Override the configured table name"⟩,
    ⟨"output", none, .value (.choice (OutputFormat.names.map (·.1))), "Output format"⟩,
    ⟨"quiet", some 'q', .flag, "Suppress output (only errors will be shown)"⟩,
    ⟨"verbose", some 'v', .flag, "Enable verbose output"⟩,
    ⟨"no-color", none, .flag, "Disable colored output"⟩, helpFlag]

def initUsage : Usage where
  path := ["init"]
  about := "Provision or verify the change entry and lock tables"
  parameters := shared ++
    [⟨"no-create", none, .flag, "Fail instead of creating the table when it is missing"⟩]

def logUsage : Usage where
  path := ["log"]
  about := "List recorded change entries"
  parameters := shared ++
    [⟨"executed", none, .flag, "Only entries whose state counts as executed"⟩]

def showUsage : Usage where
  path := ["show"]
  about := "Show one change entry"
  parameters := shared ++
    [⟨"author", none, .value .text, "Author to match with --check"⟩,
      ⟨"check", none, .flag, "Exit non-zero unless the change already executed for --author"⟩]
  places := ["change-id"]
  required := ["change-id"]
  needs := [("author", "check"), ("check", "author")]

def recordUsage : Usage where
  path := ["record"]
  about := "Insert or update a change entry"
  parameters := shared ++
    [⟨"author", none, .value .text, "Author of the change"⟩,
      ⟨"change-log", none, .value .text, "Change log the change belongs to"⟩,
      ⟨"method", none, .value .text, "Method that makes the change"⟩,
      ⟨"state", none, .value (.choice (stateWords.map (·.1))), "Outcome of the change"⟩,
      ⟨"execution-id", none, .value .text, "Execution id; generated when omitted"⟩,
      ⟨"execution-millis", none, .value .natural, "How long the change took"⟩]
  places := ["change-id"]
  required := ["change-id", "author", "change-log"]

def lockStatusUsage : Usage where
  path := ["lock", "status"]
  about := "Show the current holder of the migration lock"
  parameters := shared

def lockReleaseUsage : Usage where
  path := ["lock", "release"]
  about := "Release the lock on behalf of its recorded owner"
  parameters := shared ++ [⟨"owner", none, .value .text, "Owner recorded on the lock"⟩]
  required := ["owner"]

def lockUsage : Usage where
  path := ["lock"]
  about := "Inspect or clear the migration lock"
  parameters := shared
  commands := [lockStatusUsage, lockReleaseUsage]

def usage : Usage where
  path := []
  about := "Inspect and maintain the migration change-entry ledger"
  parameters := shared ++ [⟨"version", some 'V', .version, "Print version"⟩]
  commands := [initUsage, logUsage, showUsage, recordUsage, lockUsage]

/-- A value of the innermost level. -/
def required (l : Level) (name : String) : Except UsageFault String :=
  match l.given.lookup name with
  | some (_, value) => .ok value
  | none => .error (.missingArgument name)

def optional (l : Level) (name : String) : Option String := (l.given.lookup name).map (·.2)

def isGiven (l : Level) (name : String) : Bool := (optional l name).isSome

def recordRequest (l : Level) : Except UsageFault RecordRequest := do
  return {
    changeId := ← required l "change-id"
    author := ← required l "author"
    changeLogClass := ← required l "change-log"
    changeSetMethod := (optional l "method").getD ""
    state := ((optional l "state").bind fun w => stateWords.lookup w).getD .executed
    executionId := optional l "execution-id"
    executionMillis := ((optional l "execution-millis").bind wordOf?).getD 0 }

def command (l : Level) : Except UsageFault Command :=
  match l.path with
  | ["init"] => .ok (.init (isGiven l "no-create"))
  | ["log"] => .ok (.log (isGiven l "executed"))
  | ["show"] => do return .find (← required l "change-id") (optional l "author")
  | ["record"] => do return .record (← recordRequest l)
  | ["lock", "status"] => .ok .lockStatus
  | ["lock", "release"] => do return .lockRelease (← required l "owner")
  | path => .error (.missingCommand path)

/-- Reads a line. The environment may name the settings file. -/
def read (settingsFile : Option String) (words : List String) : Except UsageFault Invocation := do
  let environment := settingsFile.toList.map fun path => ("config", path)
  let levels ← usage.read environment words
  let value := settledValue? levels
  return {
    settingsFile := (value "config").getD Settings.defaultFile
    table := value "table"
    format := ((value "output").bind fun w => OutputFormat.names.lookup w).getD .table
    quiet := (value "quiet").isSome
    verbose := (value "verbose").isSome
    plain := (value "no-color").isSome
    command := ← command (levels.getLast?.getD ⟨[], []⟩) }

end CommandLine

end MigrationLedger
