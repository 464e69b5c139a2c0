import MigrationLedger.CommandLine.Conduct
import MigrationLedger.CommandLine.Help

/-! One run of the program: from the words of its line to what it prints, its exit code, and the
server as it is afterwards. -/

namespace MigrationLedger

inductive Ending where
  | done
  | failed (fault : SessionFault)
  /-- The line could not be read, or asked for help. -/
  | explained (fault : UsageFault)
  deriving DecidableEq, Repr, Inhabited

def Ending.exitCode : Ending → Nat
  | done => 0
  | failed _ => 1
  | explained (.helpAsked _) | explained .versionAsked => 0
  | explained _ => 2

structure Report where
  printed : Printed
  ending : Ending
  deriving DecidableEq, Repr, Inhabited

namespace Report

/-- The line in which a fault ends the run. -/
def failureLine (fault : SessionFault) : String := "Error: " ++ fault.message ++ "\n"

/-- Everything that the run prints. -/
def printedInFull (r : Report) (isColoured : Bool) : Printed :=
  match r.ending with
  | .done => r.printed
  | .failed fault => r.printed ++ { err := failureLine fault }
  | .explained fault => r.printed ++ CommandLine.explain isColoured fault

end Report

namespace Program

open Command (Surroundings)

/-- The settings of a run: those of the file, and what the line says instead. -/
def settings (e : Surroundings) (i : Invocation) : Except SessionFault Settings :=
  match Settings.load true i.settingsFile (e.files i.settingsFile) with
  | .error fault => .error (.badSettings i.settingsFile fault)
  | .ok s => .ok { s with ledger.table := i.table.getD s.ledger.table }

def console (isColoured : Bool) (i : Invocation) : Console where
  format := i.format
  quiet := i.quiet
  verbose := i.verbose
  plain := i.plain
  coloured := isColoured

/-- A run of an invocation, on a server, at the time `now`. -/
def carryOut (e : Surroundings) (isColoured : Bool) (server : Redis.Server) (now : Instant)
    (i : Invocation) : Report × Redis.Server :=
  match settings e i with
  | .error fault => (⟨{}, .failed fault⟩, server)
  | .ok s =>
    let session : Session :=
      { console := console isColoured i, space := s.redis.keyPrefix, server, wall := now }
    match (i.command.run e s i.settingsFile).run session with
    | .ok () session => (⟨session.printed, .done⟩, session.server)
    | .error fault session => (⟨session.printed, .failed fault⟩, session.server)

def run (e : Surroundings) (isColoured : Bool) (server : Redis.Server) (now : Instant)
    (words : List String) : Report × Redis.Server :=
  match CommandLine.read (e.environment.lookup CommandLine.settingsVariable) words with
  | .error fault => (⟨{}, .explained fault⟩, server)
  | .ok i => carryOut e isColoured server now i

end Program

end MigrationLedger
