import TreeLowering.Text.Search
import TreeLowering.Text.Width

/-! # Tables drawn with box characters

Cells are aligned to the left with one blank on each side; a column is as wide as its widest line,
and a cell may have several lines. -/
namespace TreeLowering.Text
set_option autoImplicit false

structure Grid where
  header : List String
  rows : List (List String)

/-- The characters of a horizontal rule. -/
structure Rule where
  left : String
  fill : String
  cross : String
  right : String

def topRule : Rule := ⟨"┌", "─", "┬", "┐"⟩

def headerRule : Rule := ⟨"╞", "═", "╪", "╡"⟩

def rowRule : Rule := ⟨"├", "╌", "┼", "┤"⟩

def bottomRule : Rule := ⟨"└", "─", "┴", "┘"⟩

def lines (s : String) : List String := (splitAt (· == '\n') s.toList).map String.ofList

def cellWidth (cell : String) : Nat := ((lines cell).map width).foldl max 0

namespace Grid

/-- Width of each column of the header. -/
def columnWidths (g : Grid) : List Nat :=
  g.header.zipIdx.map fun (title, i) =>
    (g.rows.map fun row => cellWidth (row.getD i "")).foldl max (cellWidth title)

def rule (widths : List Nat) (r : Rule) : String :=
  r.left ++ join r.cross (widths.map fun w => String.join (List.replicate (w + 2) r.fill)) ++ r.right

/-- A line of a cell, filled up to the width of its column. -/
def padded (w : Nat) (s : String) : String :=
  " " ++ s ++ String.ofList (List.replicate (w - width s) ' ') ++ " "

/-- Line `n` of a row. -/
def rowLine (widths : List Nat) (row : List String) (n : Nat) : String :=
  "│" ++ join "┆" (widths.zipIdx.map fun (w, i) => padded w ((lines (row.getD i "")).getD n ""))
    ++ "│"

def rowLines (widths : List Nat) (row : List String) : List String :=
  let height := (row.map fun cell => (lines cell).length).foldl max 1
  (List.range height).map (rowLine widths row)

/-- Rows with a rule between each two. -/
def ruledRows (widths : List Nat) : List (List String) → List String
  | [] => []
  | [row] => rowLines widths row
  | row :: rest => rowLines widths row ++ rule widths rowRule :: ruledRows widths rest

/-- The whole table, without a line break at its end. -/
def render (g : Grid) : String :=
  let widths := g.columnWidths
  join "\n" (rule widths topRule :: rowLines widths g.header ++ rule widths headerRule ::
    ruledRows widths g.rows ++ [rule widths bottomRule])

end Grid
end TreeLowering.Text
