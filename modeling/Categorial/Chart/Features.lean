import Categorial.Chart.Cell
import Categorial.Model.Basic

/-!
The features of a cell: those of its entries and of its rule applications, added up by a walk that
takes the last child first. Sums of scores depend on the order of addition, so the walk is part of
what is computed.
-/

namespace Categorial.Model

variable {K : Type} [Scalar K]

/-- Adds up the features of the nodes that a walk meets. -/
def featuresFrom (m : Model K) : List (Cell K) → SparseVector K → Except Fault (SparseVector K)
  | [], acc => .ok acc
  | .lexical entry _ _ _ _ :: rest, acc =>
    m.featuresFrom rest (acc.addTimes 1 (m.entryFeatures entry))
  | .derived _ rule children _ _ _ _ :: rest, acc =>
    match m.ruleFeatures rule with
    | .error fault => .error fault
    | .ok features => m.featuresFrom (children.reverse ++ rest) (acc.addTimes 1 features)
termination_by cells => Cell.nodesOfAll cells
decreasing_by all_goals simp [Cell.nodesOfAll, Cell.nodes]

def cellFeatures (m : Model K) (c : Cell K) : Except Fault (SparseVector K) :=
  m.featuresFrom [c] .empty

end Categorial.Model
