import MigrationLedger.Entry

/-! Colours of a terminal, how text is painted with them, and which of them the program uses for
what. -/

namespace MigrationLedger

inductive Colour where
  | black
  | red
  | green
  | yellow
  | blue
  | magenta
  | cyan
  | white
  | brightBlack
  | brightRed
  | brightGreen
  | brightYellow
  | brightBlue
  | brightMagenta
  | brightCyan
  | brightWhite
  | mixed (red green blue : Nat)
  deriving DecidableEq, Repr, Inhabited

namespace Colour

/-- The sixteen colours of the palette, by name and in the order of their codes. -/
def palette : List (String × Colour) :=
  [("Black", black), ("Red", red), ("Green", green), ("Yellow", yellow), ("Blue", blue),
    ("Magenta", magenta), ("Cyan", cyan), ("White", white), ("BrightBlack", brightBlack),
    ("BrightRed", brightRed), ("BrightGreen", brightGreen), ("BrightYellow", brightYellow),
    ("BrightBlue", brightBlue), ("BrightMagenta", brightMagenta), ("BrightCyan", brightCyan),
    ("BrightWhite", brightWhite)]

/-- In table cells the plain colours are the dark ones, and the bright ones have the plain names. -/
def cellPalette : List String :=
  ["Black", "DarkRed", "DarkGreen", "DarkYellow", "DarkBlue", "DarkMagenta", "DarkCyan", "Grey",
    "DarkGrey", "Red", "Green", "Yellow", "Blue", "Magenta", "Cyan", "White"]

/-- The place in the palette; a mixed colour has the one after the last. -/
def place (c : Colour) : Nat := (palette.map (·.2)).idxOf c

/-- A mixed colour as a record of its parts. -/
def mixedName (kind : String) (r g b : Nat) : String := s!"{kind} \x7b r: {r}, g: {g}, b: {b} \x7d"

def name (c : Colour) : String :=
  match c with
  | mixed r g b => mixedName "TrueColor" r g b
  | c => (palette.map (·.1)).getD c.place ""

/-- The name in styles of help texts. -/
def helpName (c : Colour) : String :=
  match c with
  | mixed r g b => s!"Rgb(RgbColor({r}, {g}, {b}))"
  | c => "Ansi(" ++ c.name ++ ")"

/-- The name in styles of table cells. -/
def cellName (c : Colour) : String :=
  match c with
  | mixed r g b => mixedName "Rgb" r g b
  | c => cellPalette.getD c.place ""

/-- The code that switches a terminal to the colour. -/
def code (c : Colour) : String :=
  match c with
  | mixed r g b => s!"38;2;{r};{g};{b}"
  | c => toString (if c.place < 8 then 30 + c.place else 82 + c.place)

end Colour

def resetCode : String := "\x1b[0m"

structure Paint where
  colour : Colour
  bold : Bool := false
  deriving DecidableEq, Repr, Inhabited

namespace Paint

def start (p : Paint) : String := "\x1b[" ++ (if p.bold then "1;" else "") ++ p.colour.code ++ "m"

/-- The text between the codes. Where it switches colours off itself, the paint begins again. -/
def apply (p : Paint) (text : String) : String :=
  p.start ++ (resetCode ++ p.start).intercalate (text.splitOn resetCode) ++ resetCode

/-- Painted only on a terminal that shows colours. -/
def applyIf (isColoured : Bool) (p : Paint) (text : String) : String :=
  if isColoured then p.apply text else text

end Paint

/-! ## What the colours mean -/

namespace Theme

def success : Colour := .brightGreen

def failure : Colour := .brightRed

def warning : Colour := .yellow

def info : Colour := .cyan

def highlight : Colour := .brightYellow

def muted : Colour := .brightBlack

def primary : Colour := .green

def secondary : Colour := .cyan

def key : Colour := .brightWhite

def value : Colour := .white

/-- A change without a state counts as executed. -/
def ofState : Option ChangeState → Colour
  | none | some .executed => .green
  | some .failed | some .rollbackFailed => .red
  | some .rolledBack => .magenta
  | some .ignored => .yellow

end Theme

end MigrationLedger
