import Categorial.Chart.Beam
import Categorial.Traced

/-!
How the cells of a chart are ranked: by their structural scores alone, or also by a task score that
a function gives to their meanings. A cell without meaning has the task score zero. Every use of the
function is noted.
-/

namespace Categorial

/-- A way to rank cells. -/
inductive Ranking (K : Type) where
  | structural
  /-- Ranked by a task score as well, which comes first or second. -/
  | task (score : Value → Except Fault K) (taskFirst : Bool)

namespace Ranking

variable {K : Type} [Scalar K]

/-- The score of the first row of a table whose key is equal to the meaning, or a default. -/
def tabled (table : List (Value × Except Fault K)) (default : Except Fault K) (meaning : Value) :
    Except Fault K :=
  ((table.find? fun row => row.1.equal meaning).map (·.2)).getD default

def taskScore (r : Ranking K) (c : Cell K) : Traced K :=
  match r with
  | structural => pure 0
  | task score _ =>
    if c.category.meaning.isNone then pure 0
    else do
      .note .taskScored
      .ofExcept (score c.category.meaning)

/-- The rank of a cell, once its task score is known. -/
def rankWith (r : Ranking K) (c : Cell K) (taskScore : K) : Rank K :=
  match r with
  | structural => ⟨c.score, 0⟩
  | task _ true => ⟨taskScore, c.score⟩
  | task _ false => ⟨c.score, taskScore⟩

def rank (r : Ranking K) (c : Cell K) : Traced (Rank K) :=
  r.rankWith c <$> r.taskScore c

end Ranking

end Categorial
