import FiniteState.Text.Style
import FiniteState.Text.Width
/-!
Tables of texts with a frame around the cells.
-/

namespace FiniteState.Text.Grid

/-- The columns that a line takes.  Control sequences take none. -/
def lineWidth (line : String) : Nat :=
  ((pieces line.toList).filter Piece.isShown).foldr
    (fun piece columns => width piece.text + columns) 0

/-- A line of a cell and the columns that are set aside for it. -/
structure CellLine where
  text : String
  columns : Nat
deriving DecidableEq, Repr

/-- The lines of a cell.  The columns are those of lines that stand for themselves; a cell with a
single line is nevertheless printed as it is. -/
def cellLines (cell : String) : List CellLine :=
  match separatedLines cell with
  | [line] => [⟨cell, lineWidth line⟩]
  | lines => lines.map fun line => ⟨line, lineWidth line⟩

/-- A line of a cell, filled up with spaces to a number of columns. -/
def CellLine.pad (columns : Nat) (line : CellLine) : String :=
  line.text.pushn ' ' (columns - line.columns)

def cellWidth (cell : String) : Nat :=
  ((cellLines cell).map CellLine.columns).foldl max 0

/-- The width of every column of a table, that of its widest cell. -/
def columnWidths : List (List String) → List Nat
  | [] => []
  | [row] => row.map cellWidth
  | row :: rows => (row.map cellWidth).zipWith max (columnWidths rows)

/-- A horizontal line with the given ends and crossings. -/
def rule (widths : List Nat) (left crossing right : String) : String :=
  left ++ String.intercalate crossing (widths.map fun w => "".pushn '─' (w + 2)) ++ right

def rowLine (widths : List Nat) (lines : List CellLine) : String :=
  "│" ++ String.intercalate "│"
    (widths.zipWith (fun w line => " " ++ line.pad w ++ " ") lines) ++ "│"

/-- A row is as high as its highest cell. -/
def rowLines (widths : List Nat) (row : List String) : List String :=
  let cells := row.map cellLines
  let height := (cells.map List.length).foldl max 1
  (List.range height).map fun i => rowLine widths (cells.map fun lines => lines.getD i ⟨"", 0⟩)

/-- A table with rounded corners and a line below its first row.  Without further rows, that line is
the last one. -/
def render (header : List String) (rows : List (List String)) : String :=
  let widths := columnWidths (header :: rows)
  let top := [rule widths "╭" "┬" "╮"] ++ rowLines widths header ++ [rule widths "├" "┼" "┤"]
  let below := if rows.isEmpty then [] else
    rows.flatMap (rowLines widths) ++ [rule widths "╰" "┴" "╯"]
  String.intercalate "\n" (top ++ below)

end FiniteState.Text.Grid
