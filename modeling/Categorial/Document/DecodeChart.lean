import Categorial.Chart.Ranking
import Categorial.Document.Decode

/-!
Ways to rank cells out of documents.
-/

namespace Categorial.Decode

/-- A task score. Its fault is left to whoever asks for the score. A raw one is a number or the text
of one. -/
def taskScore (raw : Bool) (j : Json) : Decode (Except Fault Number) :=
  match raw, j with
  | true, .object _ => return .error (.neverNumeric "object")
  | _, j => attempt do return .real (← lift (← value j).toFloat)

/-- A way to rank cells: by a table of task scores if there is one. -/
def ranking (j : Json) : Decode (Ranking Number) := do
  match j with
  | .object _ =>
    let raw := j.flag "raw" false
    let rows ← (j.get "table").items.mapM fun row => do
      return (← value (row.items.getD 0 .null), ← taskScore raw (row.items.getD 1 .null))
    let default ← fieldOr j "default" (.error (.noKey (Text.quoted "no score"))) (taskScore raw)
    return .task (Ranking.tabled rows default) (j.flag "primary" true)
  | _ => return .structural

end Categorial.Decode
