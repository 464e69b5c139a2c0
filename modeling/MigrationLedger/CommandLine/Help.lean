import MigrationLedger.CommandLine.Examples

/-! Help on the program and its commands, and what is said about a line that cannot be read. -/

namespace MigrationLedger

def UsageFault.message : UsageFault → String
  | helpAsked _ => "help was asked for"
  | versionAsked => "the version was asked for"
  | nothingGiven _ | missingCommand _ =>
    s!"'{CommandLine.programName}' requires a subcommand but one was not provided"
  | unknownCommand word => s!"unrecognized subcommand '{word}'"
  | unknownArgument word => s!"unexpected argument '{word}' found"
  | missingArgument name => s!"the required argument '{name}' was not provided"
  | unusableValue name value => s!"invalid value '{value}' for '{name}'"
  | malformedValue name value => s!"invalid value '{value}' for '{name}': not a number in range"
  | surplusValue name value => s!"unexpected value '{value}' for '{name}': no value is taken"
  | repeated name => s!"the argument '{name}' cannot be used multiple times"

namespace CommandLine

def version : String := "0.1.0"

def versionText : String := programName ++ " " ++ version ++ "\n"

/-- The command that words lead to from another one. -/
def descend (u : Usage) : List String → Option Usage
  | [] => some u
  | word :: words => (u.command? word).bind fun sub => descend sub words

def synopsis (u : Usage) : String :=
  let words := programName :: u.path ++ ["[OPTIONS]"] ++ u.places.map (fun p => s!"<{p}>") ++
    (if u.commands.isEmpty then [] else ["<COMMAND>"])
  "Usage: " ++ " ".intercalate words

def parameterText (p : Parameter) : String :=
  let letter := p.letter.elim "    " fun c => String.ofList ['-', c, ',', ' ']
  let value := match p.kind with
    | .value _ => " <" ++ p.name ++ ">"
    | _ => ""
  letter ++ "--" ++ p.name ++ value

/-- Two columns, the first as wide as its widest text. -/
def twoColumns (rows : List (String × String)) : String :=
  let width := (rows.map fun r => r.1.length).foldl max 0
  String.join (rows.map fun r =>
    "  " ++ r.1.pushn ' ' (width - r.1.length) ++ "  " ++ r.2 ++ "\n")

def chapter (isColoured : Bool) (title : String) (rows : List (String × String)) : String :=
  if rows.isEmpty then "" else "\n" ++ heading isColoured title ++ "\n" ++ twoColumns rows

/-- What stands below the options. -/
def afterword (isColoured : Bool) (u : Usage) : Option String :=
  match u.path with
  | [] => some (appendix isColoured)
  | [name] => examplesText? isColoured name
  | _ => none

def helpOn (isColoured : Bool) (u : Usage) : String :=
  u.about ++ "\n\n" ++ synopsis u ++ "\n" ++
    chapter isColoured "Commands:" (u.commands.map fun c => (c.name, c.about)) ++
    chapter isColoured "Options:" (u.parameters.map fun p => (parameterText p, p.about)) ++
    (afterword isColoured u).elim "" ("\n" ++ ·)

def help (isColoured : Bool) (path : List String) : String :=
  helpOn isColoured ((descend usage path).getD usage)

/-- What is said instead of carrying out a command. Help that was asked for is an answer, and
anything else a complaint. -/
def explain (isColoured : Bool) (fault : UsageFault) : Printed :=
  match fault with
  | .helpAsked path => { out := "\n" ++ help isColoured path ++ "\n" }
  | .versionAsked => { out := "\n" ++ versionText ++ "\n" }
  | .nothingGiven _ | .missingCommand _ =>
    { err := "\nerror: " ++ fault.message ++ "\n\n" ++ help isColoured [] ++ "\n" }
  | _ => { err := "\nerror: " ++ fault.message ++ "\n\n" }

end CommandLine

end MigrationLedger
