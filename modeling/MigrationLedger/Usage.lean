import MigrationLedger.Digits

/-! Command lines: which words a command takes, and how a line of words is read. Options that every
level takes may stand before or after the name of a command. -/

namespace MigrationLedger

inductive UsageFault where
  | helpAsked (path : List String)
  | versionAsked
  /-- Not a word, where a command is needed: help is of more use than a complaint. -/
  | nothingGiven (path : List String)
  | missingCommand (path : List String)
  | unknownCommand (word : String)
  | unknownArgument (word : String)
  | missingArgument (name : String)
  /-- Not one of the values that an option may have. -/
  | unusableValue (name value : String)
  /-- Not a number in range. -/
  | malformedValue (name value : String)
  /-- A value for an option that takes none. -/
  | surplusValue (name value : String)
  | repeated (name : String)
  deriving DecidableEq, Repr, Inhabited

inductive ValueKind where
  | text
  /-- A path is never empty. -/
  | path
  | choice (words : List String)
  | natural
  deriving DecidableEq, Repr, Inhabited

def ValueKind.check (name value : String) : ValueKind → Except UsageFault Unit
  | .text => .ok ()
  | .path => if value.isEmpty then .error (.unusableValue name value) else .ok ()
  | .choice words =>
    if words.contains value then .ok () else .error (.unusableValue name value)
  | .natural =>
    if (wordOf? value).isSome then .ok () else .error (.malformedValue name value)

inductive ParameterKind where
  | flag
  | value (kind : ValueKind)
  | help
  | version
  deriving DecidableEq, Repr, Inhabited

/-- An option, by its name after two hyphens or its letter after one. -/
structure Parameter where
  name : String
  letter : Option Char := none
  kind : ParameterKind := .flag
  about : String := ""
  deriving DecidableEq, Repr, Inhabited

/-- What a command takes. One that has commands of its own needs one of them. -/
structure Usage where
  /-- The words that lead to the command. -/
  path : List String
  about : String
  parameters : List Parameter
  /-- The names of the words that are no options. -/
  places : List String := []
  required : List String := []
  /-- Pairs of which the first is not given without the second. -/
  needs : List (String × String) := []
  commands : List Usage := []
  deriving Inhabited

/-- Where a value comes from; what the line says counts for more. -/
inductive Origin where
  | environment
  | line
  deriving DecidableEq, Repr

/-- The values given at one level of commands. -/
structure Level where
  path : List String
  given : List (String × Origin × String) := []
  deriving DecidableEq, Repr, Inhabited

inductive Word where
  | plain
  /-- Two hyphens and nothing else: what follows are no options. -/
  | escape
  | long (name : String) (value : Option String)
  | short (letters : List Char)
  deriving DecidableEq, Repr

/-- A single hyphen is a plain word. -/
def Word.of (word : String) : Word :=
  match word.toList with
  | ['-'] => plain
  | ['-', '-'] => escape
  | '-' :: '-' :: rest =>
    match rest.span (· ≠ '=') with
    | (name, _ :: value) => long (String.ofList name) (some (String.ofList value))
    | (name, []) => long (String.ofList name) none
  | '-' :: letters => short letters
  | _ => plain

namespace Usage

def name (u : Usage) : String := u.path.getLast?.getD ""

def command? (u : Usage) (word : String) : Option Usage := u.commands.find? (·.name = word)

/-- Every level that has commands has one more, which explains them. -/
def isExplaining (u : Usage) (word : String) : Bool := !u.commands.isEmpty && word = "help"

def isCommand (u : Usage) (word : String) : Bool := u.isExplaining word || (u.command? word).isSome

end Usage

/-- How far the reading of a level has come. -/
structure Reading where
  given : List (String × Origin × String) := []
  /-- The last option that takes a value, with its value once that has come. -/
  pending : Option (String × ValueKind × Option String) := none
  placed : Nat := 0
  /-- Whether options are over. -/
  literal : Bool := false

namespace Reading

def isGiven (r : Reading) (name : String) : Bool := r.given.any (·.1 = name)

/-- Whether the next word may be a value, and nothing else if it is a plain word. -/
def isAwaiting (r : Reading) : Bool := r.pending.any (·.2.2.isNone)

def add (r : Reading) (name : String) (origin : Origin) (value : String) : Reading :=
  { r with given := r.given ++ [(name, origin, value)] }

/-- Takes a value for an option that has none yet. -/
def take (r : Reading) (name : String) (kind : ValueKind) (value : String) :
    Except UsageFault Reading := do
  if r.isGiven name then throw (.repeated name)
  kind.check name value
  return r.add name .line value

/-- Takes the value of the last option. -/
def settle (r : Reading) : Except UsageFault Reading :=
  match r.pending with
  | none => .ok r
  | some (name, _, none) => .error (.unusableValue name "")
  | some (name, kind, some value) => { r with pending := none }.take name kind value

/-- Flags and options that do not wait for a value. -/
def takeFlag (r : Reading) (u : Usage) (p : Parameter) : Except UsageFault Reading := do
  let r ← r.settle
  match p.kind with
  | .help => throw (.helpAsked u.path)
  | .version => throw .versionAsked
  | _ => r.take p.name .text ""

/-- An option with its value attached, or with the value to come. -/
def takeOption (r : Reading) (p : Parameter) (kind : ValueKind) (value : Option String) :
    Except UsageFault Reading := do
  let r ← r.settle
  match value with
  | some v => r.take p.name kind v
  | none => return { r with pending := some (p.name, kind, none) }

def readLong (r : Reading) (u : Usage) (name : String) (value : Option String) :
    Except UsageFault Reading :=
  match u.parameters.find? (·.name = name) with
  | none => .error (.unknownArgument ("--" ++ name))
  | some p =>
    match p.kind, value with
    | .value kind, value => r.takeOption p kind value
    | _, some v => .error (.surplusValue name v)
    | _, none => r.takeFlag u p

/-- Letters after one hyphen: flags, up to one that takes the rest as its value. -/
def readShort (r : Reading) (u : Usage) : List Char → Except UsageFault Reading
  | [] => .ok r
  | c :: rest =>
    match u.parameters.find? (·.letter = some c) with
    | none => .error (.unknownArgument (String.ofList ['-', c]))
    | some p =>
      match p.kind with
      | .value kind =>
        r.takeOption p kind <|
          match rest with
          | [] => none
          | '=' :: value => some (String.ofList value)
          | value => some (String.ofList value)
      | _ => do (← r.takeFlag u p).readShort u rest

/-- A plain word that stands in a place of its own. After the options are over even the name of a
command is no command. -/
def readPlace (r : Reading) (u : Usage) (word : String) : Except UsageFault Reading :=
  match u.places[r.placed]? with
  | some name => do
    let r ← r.settle
    return { r.add name .line word with placed := r.placed + 1 }
  | none =>
    if u.commands.isEmpty || (r.literal && u.isCommand word) then .error (.unknownArgument word)
    else .error (.unknownCommand word)

def readWord (r : Reading) (u : Usage) (word : String) : Except UsageFault Reading :=
  if r.literal then r.readPlace u word
  else match Word.of word with
    | .escape => .ok { r with literal := true }
    | .long name value => r.readLong u name value
    | .short letters => r.readShort u letters
    | .plain =>
      match r.pending with
      | some (name, kind, none) => .ok { r with pending := some (name, kind, some word) }
      | _ => r.readPlace u word

/-- Values from the environment are for options that the level takes and that are not given. -/
def addEnvironment (r : Reading) (u : Usage) :
    List (String × String) → Except UsageFault Reading
  | [] => .ok r
  | (name, value) :: rest =>
    match u.parameters.find? (·.name = name) with
    | some ⟨_, _, .value kind, _⟩ => do
      if r.isGiven name then r.addEnvironment u rest
      else
        kind.check name value
        (r.add name .environment value).addEnvironment u rest
    | _ => r.addEnvironment u rest

/-- What is missing once all words are read. -/
def close (r : Reading) (u : Usage) (environment : List (String × String)) (hasCommand : Bool) :
    Except UsageFault Level := do
  let r ← (← r.settle).addEnvironment u environment
  if !hasCommand && !u.commands.isEmpty then
    throw (if r.given.isEmpty then .nothingGiven u.path else .missingCommand u.path)
  for name in u.required do
    if !r.isGiven name then throw (.missingArgument name)
  for (name, other) in u.needs do
    if r.isGiven name && !r.isGiven other then throw (.missingArgument other)
  return ⟨u.path, r.given⟩

end Reading

namespace Usage

/-- The command that explains the others. -/
def explaining (u : Usage) : Usage := { path := u.path ++ ["help"], about := "", parameters := [] }

/-- The command that words after `help` lead to. -/
def explained (u : Usage) : List String → UsageFault
  | [] => .helpAsked u.path
  | word :: words =>
    if u.isExplaining word then u.explaining.explained words
    else match u.command? word with
      | some sub => sub.explained words
      | none => .unknownCommand word

/-- Reads the words of a level, and those of the command that they name. What is wrong at the inner
level is found first. -/
def readFrom (environment : List (String × String)) (u : Usage) (r : Reading) :
    List String → Except UsageFault (List Level)
  | [] => do return [← r.close u environment false]
  | word :: words =>
    let sub := if r.literal || r.isAwaiting then none else u.command? word
    if !r.literal && !r.isAwaiting && u.isExplaining word then .error (u.explained words)
    else match sub with
      | some sub => do
        let inner ← readFrom environment sub {} words
        return (← r.close u environment true) :: inner
      | none => do readFrom environment u (← r.readWord u word) words

/-- The levels of a line, the outermost first. -/
def read (u : Usage) (environment : List (String × String)) (words : List String) :
    Except UsageFault (List Level) :=
  u.readFrom environment {} words

end Usage

/-- The value that counts: what the line says before what the environment says, and of several
levels the innermost. -/
def settledValue? (levels : List Level) (name : String) : Option String :=
  let step (best : Option (Origin × String)) (l : Level) : Option (Origin × String) :=
    match best, l.given.lookup name with
    | some (.line, v), some (.environment, _) => some (.line, v)
    | best, none => best
    | _, found => found
  (levels.foldl step none).map (·.2)

end MigrationLedger
