import MigrationLedger.CommandLine

/-! What stands below the help on a command: examples of its use. Below the help on the program
stand the variables that it knows. -/

namespace MigrationLedger.CommandLine

structure ExampleGroup where
  title : String
  lines : List String
  deriving DecidableEq, Repr, Inhabited

def examples : List (String × List ExampleGroup) :=
  [("init", [⟨"Provision the change entry and lock tables",
      ["changeledger init                       # Create the configured tables if missing",
        "changeledger init --no-create           # Only verify the table exists",
        "changeledger --table audit.log init     # Use a different table"]⟩]),
    ("log", [⟨"Inspect the ledger",
      ["changeledger log                        # Every recorded change entry",
        "changeledger log --executed             # Only entries that count as executed",
        "changeledger --output json log          # Machine-readable listing"]⟩]),
    ("show", [⟨"Inspect one change",
      ["changeledger show create-users          # Full entry for one change",
        "changeledger show create-users --author alice --check"]⟩]),
    ("record", [⟨"Record an execution by hand",
      ["changeledger record create-users --author alice --change-log db.UsersChangeLog",
        "changeledger record create-users --author alice --change-log db.UsersChangeLog " ++
          "--state rolled-back"]⟩]),
    ("lock", [⟨"Inspect or clear the migration lock",
      ["changeledger lock status                # Who holds the lock and until when",
        "changeledger lock release --owner ci-7f3a-Xq2   # Free a lock left by a crashed run"]⟩])]

/-- The variables of the environment that matter, besides the one that names the settings file. -/
def knownVariables : List (String × String) :=
  [("REDIS_URL", "Redis connection URL referenced by the default config"),
    ("RUST_LOG", "Log filter, e.g. 'changeledger=debug'")]

def heading (isColoured : Bool) (text : String) : String :=
  Paint.applyIf isColoured ⟨Theme.highlight, true⟩ text

def secondary (isColoured : Bool) (text : String) : String :=
  Paint.applyIf isColoured ⟨Theme.secondary, false⟩ text

def groupText (isColoured : Bool) (g : ExampleGroup) : String :=
  let title := Paint.applyIf isColoured ⟨Theme.primary, true⟩ g.title
  let line (text : String) : String :=
    "    " ++ secondary isColoured Tone.detail.icon ++ " " ++ secondary isColoured text ++ "\n"
  "  " ++ title ++ "\n" ++ String.join (g.lines.map line)

def groupsText (isColoured : Bool) (groups : List ExampleGroup) : String :=
  heading isColoured "Examples:" ++ "\n" ++
    "\n".intercalate (groups.map (groupText isColoured))

/-- The examples of a command. -/
def examplesText? (isColoured : Bool) (name : String) : Option String :=
  (examples.lookup name).map (groupsText isColoured)

def variableText (isColoured : Bool) (v : String × String) : String :=
  "  " ++ Paint.applyIf isColoured ⟨Theme.key, true⟩ v.1 ++ "  " ++
    Paint.applyIf isColoured ⟨Theme.value, false⟩ v.2 ++ "\n"

def tip : String := "Use 'changeledger <command> --help' to view examples for each command."

def appendix (isColoured : Bool) : String :=
  heading isColoured "Environment Variables:" ++ "\n" ++
    String.join (knownVariables.map (variableText isColoured)) ++ "\n" ++
    heading isColoured "Tip:" ++ " " ++ secondary isColoured tip ++ "\n"

end MigrationLedger.CommandLine
