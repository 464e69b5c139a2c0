import MigrationLedger.Paint

/-! What a run says to its operator: messages in one line, and progress that is written over. Errors
go to the second of two streams, and are said even when the run is to be quiet. -/

namespace MigrationLedger

/-- What was written to each stream. -/
structure Printed where
  out : String := ""
  err : String := ""
  deriving DecidableEq, Repr, Inhabited

instance : Append Printed := ⟨fun a b => ⟨a.out ++ b.out, a.err ++ b.err⟩⟩

inductive OutputFormat where
  | table
  | json
  | compact
  deriving DecidableEq, Repr, Inhabited

def OutputFormat.text : OutputFormat → String
  | table => "table"
  | json => "json"
  | compact => "compact"

def OutputFormat.names : List (String × OutputFormat) :=
  [table, json, compact].map fun f => (f.text, f)

inductive Tone where
  | success
  | failure
  | warning
  | info
  /-- Said only on request. -/
  | detail
  deriving DecidableEq, Repr

def Tone.icon : Tone → String
  | success => "●"
  | failure => "■"
  | warning => "▲"
  | info => "•"
  | detail => "›"

def Tone.colour : Tone → Colour
  | success => Theme.success
  | failure => Theme.failure
  | warning => Theme.warning
  | info => Theme.info
  | detail => Theme.muted

structure Console where
  format : OutputFormat := .table
  quiet : Bool := false
  verbose : Bool := false
  /-- Neither colours nor drawn lines. -/
  plain : Bool := false
  /-- Whether the terminal shows colours. -/
  coloured : Bool := false
  deriving DecidableEq, Repr, Inhabited

namespace Console

def paints (c : Console) : Bool := c.coloured && !c.plain

/-- An icon and a message, painted alike. -/
def line (c : Console) (t : Tone) (message : String) : String :=
  let paint := Paint.applyIf c.paints ⟨t.colour, false⟩
  paint t.icon ++ " " ++ paint message ++ "\n"

def say (c : Console) (t : Tone) (message : String) : Printed :=
  match t with
  | .failure => { err := c.line t message }
  | .detail => if c.verbose && !c.quiet then { err := c.line t message } else {}
  | _ => if c.quiet then {} else { out := c.line t message }

/-- Whether progress is shown: not where it would disturb a reader of the output. -/
def showsProgress (c : Console) : Bool := !c.quiet && c.format ≠ .json

def progressIcon : String := "…"

/-- Goes back to the start of the line, so that the next text is written over this one. -/
def progress (c : Console) (message : String) : Printed :=
  if c.showsProgress then
    { out := "\r" ++ Paint.applyIf c.paints ⟨Theme.highlight, true⟩ progressIcon ++ " " ++
        Paint.applyIf c.paints ⟨Theme.highlight, false⟩ message ++ "..." }
  else {}

def clearedColumns : Nat := 80

def clearLine (c : Console) : Printed :=
  if c.showsProgress then { out := "\r" ++ "".pushn ' ' clearedColumns ++ "\r" } else {}

/-- Writes a text that was asked for. -/
def put (c : Console) (text : String) : Printed := if c.quiet then {} else { out := text ++ "\n" }

end Console

end MigrationLedger
