import Categorial.Chart.Basic
import Categorial.Chart.Ranking

/-!
A chart that is filled by hand. Cells are kept under keys, with their task scores once those are
known, and lists of cells that were looked at are kept as they were. A cell is kept before it is
offered to the chart, and stays when the offer fails.
-/

namespace Categorial

/-- A cell made by hand, with its task score if that was found before. -/
structure Made (K : Type) where
  cell : Cell K
  task : Option K

/-- A chart, the way its cells are ranked, and what was made and seen so far. -/
structure Workbench (K : Type) where
  chart : Chart K
  ranking : Ranking K
  made : List (Value × Made K)
  views : List (Value × List (Cell K))
  /-- The number of uses of the scoring function. -/
  scorings : Nat

namespace Workbench

variable {K : Type} [Scalar K]

/-- A workbench with nothing on it. -/
def start (chart : Chart K) (ranking : Ranking K) : Workbench K := ⟨chart, ranking, [], [], 0⟩

/-- What is kept under a key. -/
def find {α : Type} (key : Value) (rows : List (Value × α)) : Except Fault α :=
  match rows.find? fun row => row.1.same key with
  | some row => .ok row.2
  | none => .error (.noKey key.shown)

/-- Keeps a cell under a key. -/
def keep (w : Workbench K) (key : Value) (cell : Cell K) : Workbench K :=
  { w with made := (key, ⟨cell, none⟩) :: w.made }

/-- The rank of a kept cell; its task score is found once. -/
def rank (w : Workbench K) (key : Value) : Except Fault (Rank K) × Workbench K :=
  match find key w.made with
  | .error fault => (.error fault, w)
  | .ok made =>
    match made.task with
    | some task => (.ok (w.ranking.rankWith made.cell task), w)
    | none =>
      let scored := w.ranking.taskScore made.cell
      let w := { w with scorings := w.scorings + scored.notes.length }
      match scored.result with
      | .error fault => (.error fault, w)
      | .ok task =>
        let learn (row : Value × Made K) : Value × Made K :=
          if row.1.same key then (row.1, ⟨row.2.cell, some task⟩) else row
        (.ok (w.ranking.rankWith made.cell task), { w with made := w.made.map learn })

/-- Offers a kept cell to the chart, and gives what the chart says and the cells of its span. -/
def offer (w : Workbench K) (key : Value) :
    Except Fault (Bool × List (Cell K)) × Workbench K :=
  match (do
    let made ← find key w.made
    let _ ← w.chart.beam made.cell.span
    return made.cell) with
  | .error fault => (.error fault, w)
  | .ok cell =>
    let (rank, w) := w.rank key
    match (w.chart.insert cell (.ofExcept rank)).result with
    | .error fault => (.error fault, w)
    | .ok (taken, chart) =>
      ((chart.cells cell.span).map fun cells => (taken, cells), { w with chart := chart })

/-- Looks at the cells of a span and keeps them under a key. -/
def look (w : Workbench K) (key : Value) (s : Span) : Except Fault (Nat × Workbench K) :=
  (w.chart.cells s).map fun cells => (cells.length, { w with views := (key, cells) :: w.views })

/-- The text of a list of cells that was looked at. -/
def viewText (cells : List (Cell K)) : Except Fault String := do
  let texts ← cells.mapM Cell.text
  return "ChartCellView(" ++ ", ".intercalate texts ++ ")"

end Workbench

end Categorial
