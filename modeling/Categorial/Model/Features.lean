import Categorial.Model.Vector
import Categorial.Model.Scorer
import Categorial.Rule.Name

/-!
Feature sets. A feature set maps a step of a parse to a sparse vector and scores it against the
weights. Lexical features fire for entries whose key has a weight; other entries are scored by the
initial scorer. Rule features fire for every application of a rule, and execution features for empty
results. The value of such a feature is asked for only when it fires.
-/

namespace Categorial

variable {K : Type} [Scalar K]

/-- A feature for each entry. -/
structure LexicalFeatures where
  name : String
  /-- Scores the entries that have no weight yet. -/
  initial : Scorer

namespace LexicalFeatures

/-- The feature set that a model has if nothing else is said. -/
def default : LexicalFeatures := ⟨"LEX", .zero⟩

def key (f : LexicalFeatures) (e : Entry) : FeatureKey :=
  [f.name, " ".intercalate e.tokens, e.category.text]

/-- The score that an entry starts with. -/
def start (f : LexicalFeatures) (e : Entry) : Except Fault K := do
  Scalar.ofNumber (← f.initial.score e)

def compute (f : LexicalFeatures) (e : Entry) (theta : SparseVector K) : SparseVector K :=
  if theta.contains (f.key e) then .ofPairs [(f.key e, 1)] else .empty

def score (f : LexicalFeatures) (e : Entry) (theta : SparseVector K) : Except Fault K :=
  match theta.get? (f.key e) with
  | some weight => .ok weight
  | none => f.start e

/-- The weights after an entry was added: a key without a weight gets one. -/
def learn (f : LexicalFeatures) (e : Entry) (theta : SparseVector K) :
    Except Fault (SparseVector K) :=
  if theta.contains (f.key e) then .ok theta
  else do
    let weight ← Scalar.weight (← f.start e)
    return theta.set (f.key e) weight

def text (f : LexicalFeatures) : String :=
  "LexicalFeatureSet[" ++ f.name ++ "](init=" ++ f.initial.text ++ ")"

end LexicalFeatures

/-- Features of rule applications. -/
inductive RuleFeatures (K : Type) where
  /-- A feature for each rule name, with the value `scale` or a fault in its place. -/
  | usage (name : String) (scale : Except Fault K)
  | abstract

namespace RuleFeatures

def compute (f : RuleFeatures K) (rule : RuleName) : Except Fault (SparseVector K) :=
  match f with
  | usage name scale => scale.bind fun x => SparseVector.ofScores [([name, rule.text], x)]
  | abstract => .error .unimplemented

def score (f : RuleFeatures K) (rule : RuleName) (theta : SparseVector K) : Except Fault K :=
  (f.compute rule).map theta.dot

def text : RuleFeatures K → String
  | usage name _ => "RuleUsageFeatureSet[" ++ name ++ "]"
  | abstract => "ParseFeatureSet"

end RuleFeatures

inductive ExecutionFeatures (K : Type) where
  /-- A feature for results that are empty collections, with the value `scale` or a fault in its
  place. -/
  | emptyResult (name : String) (scale : Except Fault K)
  | abstract

namespace ExecutionFeatures

def compute (f : ExecutionFeatures K) (result : Value) : Except Fault (SparseVector K) :=
  match f with
  | emptyResult name scale =>
    if result.isEmptyCollection then
      scale.bind fun x => SparseVector.ofScores [([name, "EMPTY_RESULT"], x)]
    else .ok .empty
  | abstract => .error .unimplemented

def score (f : ExecutionFeatures K) (result : Value) (theta : SparseVector K) : Except Fault K :=
  (f.compute result).map theta.dot

def text : ExecutionFeatures K → String
  | emptyResult name _ => "ExecutionIndicatorFeatureSet[" ++ name ++ "]"
  | abstract => "JointFeatureSet"

end ExecutionFeatures

end Categorial
