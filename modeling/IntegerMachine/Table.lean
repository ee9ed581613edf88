/-!
# Ruled tables

Tables of text cells. A table prints its titles, a rule, its rows and a closing rule; each line starts
and ends with a space, and columns are padded by one space on either side. A cell may hold several
lines, so that a printed table can be a cell of another table. Widths count characters.
-/
namespace IntegerMachine

inductive Alignment where
  | left
  | right
  deriving DecidableEq

/-- A cell of a table: lines of text on one side of their column. -/
structure Cell where
  alignment : Alignment
  lines : List String

structure Table where
  titles : List Cell
  rows : List (List Cell)

namespace Cell

def left (text : String) : Cell := ⟨.left, [text]⟩

def right (text : String) : Cell := ⟨.right, [text]⟩

def width (cell : Cell) : Nat := (cell.lines.map String.length).foldl max 0

/-- Line `n` of a cell, filled up to a width. -/
def line (cell : Cell) (n width : Nat) : String :=
  let text := cell.lines.getD n ""
  let fill := "".pushn ' ' (width - text.length)
  match cell.alignment with
  | .left => text ++ fill
  | .right => fill ++ text

end Cell

namespace Table

/-- The width of each column: that of its widest cell. -/
def widths (table : Table) : List Nat :=
  (List.range table.titles.length).map fun j =>
    ((table.titles :: table.rows).map fun row => (row[j]?.map Cell.width).getD 0).foldl max 0

/-- A horizontal rule that meets the column separators in the character `crossing`. -/
def rule (crossing : String) (widths : List Nat) : String :=
  " " ++ crossing.intercalate (widths.map fun width => "".pushn '─' (width + 2)) ++ " \n"

def rowText (widths : List Nat) (row : List Cell) : String :=
  let height := (row.map fun cell => cell.lines.length).foldl max 0
  String.join <| (List.range height).map fun n =>
    " " ++ "│".intercalate ((row.zip widths).map fun (cell, width) =>
      " " ++ cell.line n width ++ " ") ++ " \n"

def render (table : Table) : String :=
  let widths := table.widths
  rowText widths table.titles ++ rule "┼" widths ++
    String.join (table.rows.map (rowText widths)) ++ rule "┴" widths

def renderLines (table : Table) : List String :=
  ((table.render.splitOn "\n").reverse.drop 1).reverse

/-- A table as a cell of another table. -/
def toCell (table : Table) : Cell := ⟨.left, table.renderLines⟩

end Table

end IntegerMachine
