import Categorial.Lexicon.View
import Categorial.Model.Features

/-!
The linear model: a lexicon, feature sets and their weights. Adding an entry puts it into the
lexicon and then gives weights to its keys, set by set; if a scorer fails on the way, the entry and
the weights given so far stay.
-/

namespace Categorial

structure Model (K : Type) where
  lexicon : Lexicon
  lexical : List LexicalFeatures
  rules : List (RuleFeatures K)
  executions : List (ExecutionFeatures K)
  theta : SparseVector K

namespace Model

variable {K : Type} [Scalar K]

/-- Gives weights to the keys of an entry, set by set, and stops at the first fault. -/
def learnWeights (e : Entry) : List LexicalFeatures → SparseVector K →
    Except Fault Unit × SparseVector K
  | [], theta => (.ok (), theta)
  | f :: fs, theta =>
    match f.learn e theta with
    | .error fault => (.error fault, theta)
    | .ok theta => learnWeights e fs theta

/-- Adds an entry and tells whether it was new; the second part is the model that is left. -/
def addEntry (m : Model K) (e : Entry) : Except Fault Bool × Model K :=
  let added := m.lexicon.add e
  if added.1 then
    let (outcome, theta) := learnWeights e m.lexical m.theta
    (outcome.map fun _ => true, { m with lexicon := added.2, theta := theta })
  else (.ok false, m)

/-- Adds entries one by one, and stops at the first fault. -/
def addEntries (m : Model K) : List Entry → Except Fault (Model K)
  | [] => .ok m
  | e :: es =>
    match m.addEntry e with
    | (.error fault, _) => .error fault
    | (.ok _, m) => m.addEntries es

/-- The model with the given parts; the entries of the lexicon get weights. -/
def create (entries : List Entry) (lexical : List LexicalFeatures) (rules : List (RuleFeatures K))
    (executions : List (ExecutionFeatures K)) (theta : SparseVector K) :
    Except Fault (Model K) :=
  addEntries ⟨.empty, lexical, rules, executions, theta⟩ entries

/-- Adds up the vectors that the feature sets give, and stops at the first fault. -/
def totalVector (vectors : List (Except Fault (SparseVector K))) :
    Except Fault (SparseVector K) :=
  (vectors.mapM id).map SparseVector.sum

def entryFeatures (m : Model K) (e : Entry) : SparseVector K :=
  SparseVector.sum (m.lexical.map fun f => f.compute e m.theta)

def scoreEntry (m : Model K) (e : Entry) : Except Fault K :=
  Scalar.total (m.lexical.map fun f => f.score e m.theta)

def ruleFeatures (m : Model K) (rule : RuleName) : Except Fault (SparseVector K) :=
  totalVector (m.rules.map fun f => f.compute rule)

def scoreRule (m : Model K) (rule : RuleName) : Except Fault K :=
  Scalar.total (m.rules.map fun f => f.score rule m.theta)

/-- The features of an execution with the given result. -/
def executionFeatures (m : Model K) (result : Value) : Except Fault (SparseVector K) :=
  totalVector (m.executions.map fun f => f.compute result)

/-- The score of an execution with the given result. -/
def scoreExecution (m : Model K) (result : Value) : Except Fault K :=
  Scalar.total (m.executions.map fun f => f.score result m.theta)

/-- The texts of all feature sets. -/
def featureTexts (m : Model K) : List String :=
  m.lexical.map (·.text) ++ m.rules.map (·.text) ++ m.executions.map (·.text)

/-- The lines of a report for entries from position `i` on, cut short at `limit` entries. -/
def entryLines (m : Model K) (limit : Option Number) (i : Nat) : List Entry →
    Except Fault (List String)
  | [] => .ok []
  | e :: es =>
    if limit.any fun x => x.le (.int i) then .ok ["  ..."]
    else do
      let score ← Scalar.shown 4 (← m.scoreEntry e)
      let rest ← m.entryLines limit (i + 1) es
      return ("  " ++ e.text ++ " [" ++ score ++ "]") :: rest

/-- The report on a model, with at most `limit` entries if there is a limit. -/
def summary (m : Model K) (limit : Option Number) : Except Fault String := do
  let lines ← m.entryLines limit 0 m.lexicon.entries
  return "Model:\n" ++ Text.indent (Text.block
    ("Feature sets:" :: m.featureTexts.map (fun t => "  " ++ t) ++
      ("Theta (" ++ toString m.theta.size ++ " features).") ::
      ("Lexicon (" ++ toString m.lexicon.size ++ " entries):") :: lines))

end Model

end Categorial
