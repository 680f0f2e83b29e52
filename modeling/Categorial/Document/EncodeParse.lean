import Categorial.Document.EncodeChart
import Categorial.Parsing.Analyzer

/-!
Documents that show parses and what an analysis gives.
-/

namespace Categorial

namespace Parse

def toJson (m : Model Number) (p : Parse Number) : Except Fault Json := do
  let score ← p.score.scoreJson
  let text ← p.text
  let features ← p.features m
  let execution ← match p with
    | derived _ => pure []
    | joint p => do
      pure [("exec", ← p.executionScore.scoreJson), ("sem", p.base.meaning.toJson),
        ("value", p.outcome.toJson)]
  return .object ([("result", p.result.toJson), ("score", score), ("str", .text text),
    ("entries", .texts (p.entries.map (·.text))), ("rules", .texts (p.rules.map (·.text))),
    ("features", features.toJson),
    ("cells", .array [.nat p.base.cells.length, .nat p.base.best.length])] ++ execution)

/-- The positions of the elements of a list that satisfy a test. -/
def positions (test : Parse Number → Bool) (ps : List (Parse Number)) : Json :=
  .array ((ps.zipIdx.filter fun p => test p.1).map fun p => .nat p.2)

end Parse

namespace Analysis

/-- What a document may show of an analysis besides its parses. -/
def shown (a : Analysis Number) (executes : Bool) (scorings : Nat) (what : String) :
    Except Fault Json := do
  match what with
  | "chart" => return .text (← a.chart.summary true)
  | "trees" => return .texts ((← a.chart.fullParses).map Cell.tree)
  | "summary" =>
    if executes then return .texts (← a.parses.mapM Parse.summary)
    else return .text (← a.summary)
  | _ => return .nat scorings

/-- The document that shows an analysis, with further fields of the given names. The parses that
have the result to find come after all parses, and so does the fault of a result that is none. -/
def toJson (m : Model Number) (a : Analysis Number) (executes : Bool) (scorings : Nat)
    (find : Option (Except Fault Value)) (printed : Bool) (wanted : List String) :
    Except Fault Json := do
  let parses ← a.parses.mapM (Parse.toJson m)
  let found ← match find with
    | none => pure []
    | some v => do pure [("found", Parse.positions (Parse.hasResult (← v)) a.parses)]
  let printed ← if printed then do
      pure [("printed", Json.text ((← a.chart.summary true) ++ "\n"))]
    else pure []
  let best := Parse.positions (Parse.leads a.parses) a.parses
  let further ← wanted.mapM fun what => do return (what, ← a.shown executes scorings what)
  return .object ([("parses", .array parses), ("best", best),
    ("retained", .nat a.chart.retained)] ++ found ++ printed ++ further)

end Analysis

end Categorial
