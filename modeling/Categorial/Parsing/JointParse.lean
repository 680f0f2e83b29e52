import Categorial.Parsing.Derivation
import Categorial.Traced

/-!
Executing derivations. An executor gives a result to a meaning in a state, refuses it, or finds that
it cannot be executed; a derivation of the latter two kinds is dropped. Any other fault of an
executor is a fault of the whole. Derivations without a meaning are not executed.
-/

namespace Categorial

/-- Executes a meaning in a state. -/
abbrev Executor := Value → Value → Traced Value

/-- A derivation with the result of its execution and the score of the latter. The two scores can be
added. -/
structure JointParse (K : Type) where
  base : Derivation K
  outcome : Value
  executionScore : K

namespace JointParse

variable {K : Type} [Scalar K]

/-- The meaning with the result of its execution. -/
def result (p : JointParse K) : Value := .tuple [p.base.meaning, p.outcome]

/-- The score of the derivation and of the execution. -/
def score (p : JointParse K) : K := p.base.score + p.executionScore

/-- The features of the derivation and of the execution. -/
def features (p : JointParse K) (m : Model K) : Except Fault (SparseVector K) := do
  let base ← p.base.features m
  let execution ← m.executionFeatures p.outcome
  return base.add execution

/-- The text of a derivation with the result of its execution. -/
def text (p : JointParse K) : Except Fault String := do
  return "JointParse(" ++ p.base.category.text ++ " => " ++ p.outcome.display ++ ", score="
    ++ (← Scalar.shown 4 p.score) ++ ")"

/-- The report on a derivation with the result of its execution. -/
def summary (p : JointParse K) : Except Fault String := do
  let score ← Scalar.shown 4 p.executionScore
  return "=> " ++ p.outcome.display ++ " [exec_score=" ++ score ++ "]\n" ++ (← p.base.summary)

/-- A derivation with the result of its execution, if their scores can be added. -/
def create (m : Model K) (base : Derivation K) (outcome : Value) : Except Fault (JointParse K) := do
  let executionScore ← m.scoreExecution outcome
  let _ ← Scalar.plus base.score executionScore
  return ⟨base, outcome, executionScore⟩

/-- The result of executing a meaning, or nothing if it is refused or cannot be executed. -/
def execute (executor : Executor) (state : Value) (d : Derivation K) : Traced (Option Value) :=
  if d.meaning.isNone then pure none
  else
    let run := executor d.meaning state
    match run.result with
    | .ok outcome => ⟨run.notes, .ok (if outcome.isNone then none else some outcome)⟩
    | .error fault =>
      if fault.kind.coveredBy [.execution] then
        ⟨run.notes ++ [.executionFailure d.category.text fault], .ok none⟩
      else ⟨run.notes, .error fault⟩

/-- The executable derivations of a list, in its order. -/
def executeAll (m : Model K) (executor : Executor) (state : Value) :
    List (Derivation K) → Traced (List (JointParse K))
  | [] => pure []
  | d :: ds => do
    match ← execute executor state d with
    | none => executeAll m executor state ds
    | some outcome =>
      let parse ← Traced.ofExcept (create m d outcome)
      let rest ← executeAll m executor state ds
      return parse :: rest

/-- The executable derivations of a list, the best ones first. -/
def ofDerivations (m : Model K) (executor : Executor) (state : Value) (ds : List (Derivation K)) :
    Traced (List (JointParse K)) :=
  byScore score <$> executeAll m executor state ds

end JointParse

end Categorial
