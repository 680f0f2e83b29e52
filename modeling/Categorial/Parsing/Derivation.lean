import Categorial.Chart.Basic
import Categorial.Chart.Features
import Categorial.Collection.ByScore
import Categorial.Collection.Distinct

/-!
Derivations: the full parses that share a category. A derivation scores as much as the best of its
cells, and is described by the cells that reach this score. Main statement: grouping by categories
neither loses nor adds cells.
-/

namespace Categorial

/-- The full parses of one category: the first one and the others, in the order of the chart. -/
structure Derivation (K : Type) where
  first : Cell K
  others : List (Cell K)

namespace Derivation

variable {K : Type}

def cells (d : Derivation K) : List (Cell K) := d.first :: d.others

def category (d : Derivation K) : Category := d.first.category

def meaning (d : Derivation K) : Value := d.category.meaning

/-- Puts a cell behind those of its category, or starts a derivation with it. -/
def place (c : Cell K) : List (Derivation K) → List (Derivation K)
  | [] => [⟨c, []⟩]
  | d :: ds =>
    if d.category.same c.category then ⟨d.first, d.others ++ [c]⟩ :: ds else d :: place c ds

/-- The derivations that some cells make up, in the order of their first cells. -/
def group (cells : List (Cell K)) : List (Derivation K) :=
  cells.foldl (fun ds c => place c ds) []

theorem place_perm (c : Cell K) (ds : List (Derivation K)) :
    ((place c ds).flatMap cells).Perm (c :: ds.flatMap cells) := by
  induction ds with
  | nil => simp [place, cells]
  | cons d ds ih =>
    rw [place]
    split
    · simp only [List.flatMap_cons, cells, List.cons_append, List.append_assoc]
      refine (List.Perm.cons _ ?_).trans (List.Perm.swap _ _ _)
      exact List.perm_middle
    · simp only [List.flatMap_cons]
      exact (ih.append_left _).trans List.perm_middle

/-- Grouping neither loses nor adds cells. -/
theorem group_perm (cs : List (Cell K)) : ((group cs).flatMap cells).Perm cs := by
  suffices h : ∀ ds : List (Derivation K),
      ((cs.foldl (fun ds c => place c ds) ds).flatMap cells).Perm (ds.flatMap cells ++ cs) by
    simpa [group] using h []
  induction cs with
  | nil => simp
  | cons c cs ih =>
    intro ds
    rw [List.foldl_cons]
    refine (ih _).trans ?_
    exact ((place_perm c ds).append_right cs).trans List.perm_middle.symm

variable [Scalar K]

/-- The score of a derivation: the greatest score of its cells. -/
def score (d : Derivation K) : K := Scalar.maximum d.first.score (d.others.map (·.score))

/-- The cells that reach the score of a derivation. -/
def best (d : Derivation K) : List (Cell K) := d.cells.filter fun c => Scalar.same c.score d.score

/-- The entries of the best cells, without repetitions, in the order of their first use. -/
def entries (d : Derivation K) : List Entry := distinct Entry.same (d.best.flatMap Cell.entries)

/-- The rules of the best cells, without repetitions, in the order of their first use. -/
def rules (d : Derivation K) : List RuleName := distinct (· == ·) (d.best.flatMap Cell.rules)

/-- The mean of the features of the best cells. -/
def features (d : Derivation K) (m : Model K) : Except Fault (SparseVector K) :=
  (d.best.mapM m.cellFeatures).map SparseVector.mean

def text (d : Derivation K) : Except Fault String := do
  return "CKYDerivation(" ++ d.category.text ++ ", score=" ++ (← Scalar.shown 4 d.score) ++ ")"

def summary (d : Derivation K) : Except Fault String := do
  let score ← Scalar.shown 4 d.score
  return "\n".intercalate ((d.category.text ++ " [score=" ++ score ++ ", cells="
      ++ toString d.cells.length ++ ", max_cells=" ++ toString d.best.length ++ "]") ::
    d.entries.map (fun e => "  " ++ e.text) ++
      ["  rules: " ++ ", ".intercalate (d.rules.map (·.text))])

/-- The derivations of a chart, the best ones first. -/
def ofChart (chart : Chart K) : Except Fault (List (Derivation K)) :=
  chart.fullParses.map fun cells => byScore score (group cells)

end Derivation

end Categorial
