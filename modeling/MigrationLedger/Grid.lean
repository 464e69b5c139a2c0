import MigrationLedger.Text.Width

/-! Tables of text. A column is as wide as its widest line, with a blank on each side; a cell may
have several lines. -/

namespace MigrationLedger

/-- A horizontal rule: its left end, what it is made of, its crossings, its right end. -/
structure Rule where
  left : Char
  fill : Char
  crossing : Char
  right : Char

/-- What is drawn around and between the cells. -/
structure Frame where
  top : Rule
  belowHeader : Rule
  between : Option Rule
  bottom : Rule
  left : Char
  inner : Char
  right : Char

namespace Frame

def ascii : Frame where
  top := ⟨'+', '-', '+', '+'⟩
  belowHeader := ⟨'+', '=', '=', '+'⟩
  between := some ⟨'|', '-', '+', '|'⟩
  bottom := ⟨'+', '-', '+', '+'⟩
  left := '|'
  inner := '|'
  right := '|'

def drawn : Frame where
  top := ⟨'┌', '─', '┬', '┐'⟩
  belowHeader := ⟨'╞', '═', '╪', '╡'⟩
  between := none
  bottom := ⟨'└', '─', '┴', '┘'⟩
  left := '│'
  inner := '┆'
  right := '│'

end Frame

structure Grid where
  header : Option (List String) := none
  rows : List (List String)
  deriving DecidableEq, Repr, Inhabited

namespace Grid

/-- The lines of a cell. -/
abbrev Cell : Type := List String

def linesOf (text : String) : Cell :=
  (text.toList.splitOn '\n').map String.ofList

/-- The wider of two columns, column by column. -/
def widest : List Nat → List Nat → List Nat
  | [], ws => ws
  | vs, [] => vs
  | v :: vs, w :: ws => max v w :: widest vs ws

def cellColumns (c : Cell) : Nat := (c.map columns).foldl max 0

def columnWidths (rows : List (List Cell)) : List Nat :=
  (rows.map (·.map cellColumns)).foldl widest []

def padded (width : Nat) (line : String) : String := line.pushn ' ' (width - columns line)

def ruleText (widths : List Nat) (r : Rule) : String :=
  let parts := widths.map fun w => "".pushn r.fill (w + 2)
  (r.left.toString ++ r.crossing.toString.intercalate parts).push r.right

/-- One line of a row: the lines of that number of its cells, and blanks where a cell has none. -/
def rowLine (f : Frame) (widths : List Nat) (cells : List Cell) (number : Nat) : String :=
  let parts := (widths.zip cells).map fun (w, c) => " " ++ padded w (c.getD number "") ++ " "
  (f.left.toString ++ f.inner.toString.intercalate parts).push f.right

def rowLines (f : Frame) (widths : List Nat) (cells : List Cell) : List String :=
  (List.range ((cells.map List.length).foldl max 0)).map (rowLine f widths cells)

/-- The rows, with a rule between any two if the frame has one. -/
def bodyLines (f : Frame) (widths : List Nat) (rows : List (List Cell)) : List String :=
  let between := (f.between.map (ruleText widths)).toList
  between.intercalate (rows.map (rowLines f widths))

def lines (g : Grid) (f : Frame) : List String :=
  let header := g.header.map (·.map linesOf)
  let rows := g.rows.map (·.map linesOf)
  let widths := columnWidths (header.toList ++ rows)
  let headerLines := header.elim [] fun cells =>
    rowLines f widths cells ++ [ruleText widths f.belowHeader]
  [ruleText widths f.top] ++ headerLines ++ bodyLines f widths rows ++ [ruleText widths f.bottom]

/-- The lines, without a line break after the last one. -/
def text (g : Grid) (f : Frame) : String := "\n".intercalate (g.lines f)

end Grid

end MigrationLedger
