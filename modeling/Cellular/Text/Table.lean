import Cellular.Text.Quoted

/-!
# Tables

* `table` draws a table with lines around its cells.  Every column is as wide as its widest cell
  with a blank on either side.
-/

namespace Cellular.Text

/-- The width of every column of a table. -/
def columnWidths (header : List String) (rows : List (List String)) : List Nat :=
  rows.foldl (fun widths row => List.zipWith max widths (row.map String.length))
    (header.map String.length)

/-- A horizontal line of a table with its left end, its crossings and its right end. -/
def tableLine (left crossing right : String) (widths : List Nat) : String :=
  left ++ crossing.intercalate (widths.map fun w => repeated (w + 2) "─") ++ right

/-- A row of a table. -/
def tableRow (widths : List Nat) (cells : List String) : String :=
  let cell (w : Nat) (s : String) : String := " " ++ padRight w s ++ " "
  "│" ++ "│".intercalate (List.zipWith cell widths cells) ++ "│"

/-- Draws a table; there is a line between the header and the rows. -/
def table (header : List String) (rows : List (List String)) : String :=
  let widths := columnWidths header rows
  let lines :=
    [tableLine "┌" "┬" "┐" widths, tableRow widths header, tableLine "├" "┼" "┤" widths]
    ++ rows.map (tableRow widths)
    ++ [tableLine "└" "┴" "┘" widths]
  String.join (lines.map (· ++ "\n"))

end Cellular.Text
