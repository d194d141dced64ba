import StackCode.Text.Width

/-!
# Tables

A table is drawn with one column for every cell of its longest row. Each column is as wide as the
widest of its cells, and shorter cells are filled up with spaces according to the alignment of
their column. Cells are measured as the terminal shows them, without their colour sequences.
-/

namespace StackCode

/-- On which side of its column a cell stands. -/
inductive Alignment where
  | left
  | right
  | center
  /-- A number that names no side. The cell stands on the left. -/
  | other (code : Int)
  deriving DecidableEq, Repr

/-- The contents of a table. -/
structure Table where
  header : List String := []
  rows : List (List String) := []
  /-- The alignments of the columns, left for columns beyond them. -/
  alignment : List Alignment := []
  /-- The alignments of the header cells. -/
  headerAlignment : List Alignment := []

/-- `n` copies of a character. -/
def repeated (n : Nat) (c : Char) : String := String.ofList (List.replicate n c)

variable (terminal : Terminal)

/-- Fills a cell up to the width of its column. -/
def pad (cell : String) (width : Nat) (alignment : Alignment) : String :=
  let gap := width - terminal.width cell.toList
  match alignment with
  | .left | .other _ => cell ++ repeated gap ' '
  | .right => repeated gap ' ' ++ cell
  | .center => repeated (gap / 2) ' ' ++ cell ++ repeated (gap - gap / 2) ' '

namespace Table

/-- The number of columns. -/
def columns (t : Table) : Nat := (t.rows.map List.length).foldl max t.header.length

/-- The width of column `i`. -/
def width (t : Table) (i : Nat) : Nat :=
  ((t.header :: t.rows).map fun row => terminal.width (row.getD i "").toList).foldl max 0

/-- The widths of all columns. -/
def widths (t : Table) : List Nat := (List.range t.columns).map (t.width terminal)

/-- A line between rows. -/
def separator (widths : List Nat) : String :=
  "+" ++ String.join (widths.map fun w => repeated (w + 2) '-' ++ "+") ++ "\n"

/-- A line with the cells of a row. -/
def line (widths : List Nat) (alignment : List Alignment) (row : List String) : String :=
  "|" ++ String.join (widths.zipIdx.map fun (w, i) =>
    " " ++ pad terminal (row.getD i "") w (alignment.getD i .left) ++ " |") ++ "\n"

/-- The lines of a table. -/
def lines (t : Table) : List String :=
  if t.columns = 0 then []
  else
    let widths := t.widths terminal
    let head := if t.header.isEmpty then []
      else [line terminal widths t.headerAlignment t.header, separator widths]
    [separator widths] ++ head ++ t.rows.map (line terminal widths t.alignment) ++
      [separator widths]

/-- The text of a table, empty if it has no columns. -/
def render (t : Table) : String := String.join (t.lines terminal)

end Table

end StackCode
