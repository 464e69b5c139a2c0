import MigrationLedger.Program
import Std.Time.DateTime.Timestamp

/-! The program. It reaches no server over a network: at every address a server answers that starts
with no keys and lasts as long as the run. -/

namespace MigrationLedger

/-- What is found under a path. -/
def sourceAt (path : String) : IO Settings.Source := do
  try
    return .text (← IO.FS.readFile path)
  catch
    | .noFileOrDirectory .. => return .absent
    | .inappropriateType .. =>
      return .unreadable "Is a directory (os error 21)"
    | e => return .unreadable (toString e)

/-- The variable that the address in the settings refers to. -/
def addressVariable : Settings.Source → Option String
  | .text content =>
    match Settings.read content with
    | .ok s => Settings.reference? s.redis.url
    | .error _ => none
  | _ => Settings.reference? ({} : Settings).redis.url

def lookUp (name : String) : IO (List (String × String)) := do
  return ((← IO.getEnv name).map fun value => (name, value)).toList

def drawRandomPart : IO String := do
  let bytes ← IO.getRandomBytes (USize.ofNat Identifier.randomLength)
  let letters := Identifier.alphabet
  return String.ofList (bytes.toList.map fun b => letters.getD (b.toNat % letters.length) 'x')

def timeOfDay : IO Instant := do
  let nanos := (← Std.Time.Timestamp.now).toNanosecondsSinceUnixEpoch.val
  return ⟨nanos / 1000000000, (nanos % 1000000000).toNat⟩

def runProgram (words : List String) : IO UInt32 := do
  let chosen ← lookUp CommandLine.settingsVariable
  let path := match CommandLine.read (chosen.head?.map (·.2)) words with
    | .ok i => i.settingsFile
    | .error _ => Settings.defaultFile
  let source ← sourceAt path
  let address ← (addressVariable source).toList.mapM lookUp
  let surroundings : Command.Surroundings :=
    { files := fun _ => source
      environment := chosen ++ address.flatten
      host := (← IO.getEnv "HOSTNAME").getD ""
      random := ← drawRandomPart
      answers := fun _ => true }
  let isColoured ← (← IO.getStdout).isTty
  let (report, _) := Program.run surroundings isColoured {} (← timeOfDay) words
  let printed := report.printedInFull isColoured
  IO.print printed.out
  IO.eprint printed.err
  return report.ending.exitCode.toUInt32

end MigrationLedger

def main (words : List String) : IO UInt32 := MigrationLedger.runProgram words
