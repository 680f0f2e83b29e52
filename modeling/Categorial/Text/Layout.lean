import Categorial.Text.Blank

/-!
Laying out reports: indented blocks, padded columns and plain tables. A table has a line of headers,
a line of dashes and a line per row; each column is as wide as its widest cell, and at least two
wider than its header.
-/

namespace Categorial.Text

/-- A block of lines moved two places to the right, its first line included. -/
def indent (s : String) : String :=
  "  " ++ String.ofList (s.toList.flatMap fun c => if c = '\n' then ['\n', ' ', ' '] else [c])

/-- A block whose lines each end with a line break, without the blanks it ends with. -/
def block (lines : List String) : String :=
  dropTrailingBlanks (String.join (lines.map (· ++ "\n")))

/-- A text with blanks before it, up to a width. -/
def padStart (width : Nat) (s : String) : String :=
  String.ofList (List.replicate (width - s.length) ' ') ++ s

/-- A text with blanks after it, up to a width. -/
def padEnd (width : Nat) (s : String) : String :=
  s ++ String.ofList (List.replicate (width - s.length) ' ')

def columnWidths (headers : List String) (rows : List (List String)) : List Nat :=
  headers.mapIdx fun i h =>
    rows.foldl (fun w row => max w (row.getD i "").length) (h.length + 2)

/-- A table of right-aligned columns under their headers; headers without rows are left-aligned. -/
def table (headers : List String) (rows : List (List String)) : String :=
  let widths := columnWidths headers rows
  let align := if rows.isEmpty then padEnd else padStart
  let line (cells : List String) := dropTrailingBlanks ("  ".intercalate cells)
  let header := line (List.zipWith align widths headers)
  let rule := line (widths.map fun w => String.ofList (List.replicate w '-'))
  let body := rows.map fun row => line (List.zipWith padStart widths row)
  "\n".intercalate (header :: rule :: body)

end Categorial.Text
