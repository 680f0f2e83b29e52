import Categorial.Parsing.JointParse
import Categorial.Parsing.Parser

/-!
Analysing sentences: a parser, with an executor for its derivations or without one. What an analysis
gives is a ranked list of parses, which learning looks at without knowing of which kind they are.
-/

namespace Categorial

/-- A parse: a derivation, or a derivation that was executed. -/
inductive Parse (K : Type) where
  | derived (d : Derivation K)
  | joint (p : JointParse K)

namespace Parse

variable {K : Type}

def base : Parse K → Derivation K
  | derived d => d
  | joint p => p.base

def result : Parse K → Value
  | derived d => d.meaning
  | joint p => p.result

/-- Whether the result of a parse is equal to a value. -/
def hasResult (v : Value) (p : Parse K) : Bool := p.result.equal v

variable [Scalar K]

def entries (p : Parse K) : List Entry := p.base.entries

def rules (p : Parse K) : List RuleName := p.base.rules

def score : Parse K → K
  | derived d => d.score
  | joint p => p.score

def features (m : Model K) : Parse K → Except Fault (SparseVector K)
  | derived d => d.features m
  | joint p => p.features m

def text : Parse K → Except Fault String
  | derived d => d.text
  | joint p => p.text

def summary : Parse K → Except Fault String
  | derived d => d.summary
  | joint p => p.summary

/-- Whether a parse scores as much as the first one of a ranked list. -/
def leads (ps : List (Parse K)) (p : Parse K) : Bool :=
  ps.head?.any fun q => Scalar.same p.score q.score

/-- The best parses of a ranked list: those that score as much as the first one. -/
def best (ps : List (Parse K)) : List (Parse K) := ps.filter (leads ps)

end Parse

/-- What an analysis of a sentence gives. -/
structure Analysis (K : Type) where
  chart : Chart K
  /-- The parses, the best ones first. -/
  parses : List (Parse K)
  /-- The time it took. The library reads no clock and leaves it at zero. -/
  seconds : K

namespace Analysis

variable {K : Type} [Scalar K]

def summary (a : Analysis K) : Except Fault String := do
  let seconds ← Scalar.shown 3 a.seconds
  let summaries ← a.parses.mapM Parse.summary
  return "CKYParserOutput(parses=" ++ toString a.parses.length ++ ", time=" ++ seconds ++ "s):\n"
    ++ Text.indent ("\n".intercalate summaries)

end Analysis

/-- A parser, with an executor for its derivations or without one. -/
structure Analyzer (K : Type) where
  parser : Parser K
  executor : Option Executor

namespace Analyzer

variable {K : Type} [Scalar K]

/-- Parses a sentence, and executes the derivations in a state if there is an executor. -/
def analyze (a : Analyzer K) (m : Model K) (tokens : List String) (state : Value)
    (options : ParseOptions) : Traced (Analysis K) := do
  let chart ← a.parser.chart m tokens options
  let ds ← Traced.ofExcept (Derivation.ofChart chart)
  match a.executor with
  | none => return ⟨chart, ds.map .derived, 0⟩
  | some executor =>
    let ps ← JointParse.ofDerivations m executor state ds
    return ⟨chart, ps.map .joint, 0⟩

end Analyzer

end Categorial
