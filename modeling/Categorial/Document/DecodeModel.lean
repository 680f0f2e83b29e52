import Categorial.Document.Decode
import Categorial.Model.Basic
import Categorial.Model.ScorerConfig

/-!
Scorers, vectors and models out of documents.
-/

namespace Categorial.Decode

/-- A resource of a scorer: a category if it has a type, and a scorer otherwise. -/
def resourceWith (scorer : Json → Decode Scorer) (j : Json) : Decode Scorer.Parameter := do
  if j.has "syn" then return .thing (.category (← category j)) else return .scorer (← scorer j)

/-- A parameter of a scorer: a scorer if it says so, and a value otherwise. -/
def parameterWith (scorer : Json → Decode Scorer) (j : Json) : Decode Scorer.Parameter := do
  match j.get? "scorer" with
  | some s => return .scorer (← scorer s)
  | none => return .thing (.value (← value j))

/-- A scorer, at most `fuel` levels deep. -/
def scorerWith : Nat → Json → Decode Scorer
  | 0, _ => pure .abstract
  | fuel + 1, j => do
    let part (name : String) (i : Nat) : Json := (j.get name).items.getD i .null
    if j.has "uniform" then return .uniform (← number (j.get "uniform"))
    else if j.has "length" then
      let coefficient ← number (part "length" 0)
      match part "length" 1 with
      | .null => return .length coefficient (.real 1.0)
      | exponent => return .length coefficient (← number exponent)
    else if j.has "scaled" then
      let scale ← number (part "scaled" 0)
      return .scaled scale (← scorerWith fuel (part "scaled" 1))
    else if j.has "skip" then
      let empty ← if (part "skip" 0).isNull then pure Category.empty else category (part "skip" 0)
      let cost ← number (part "skip" 1)
      return .skipping (some empty) cost (← scorerWith fuel (part "skip" 2))
    else if j.has "params" then
      let parameters ← (j.get "params").fields.mapM fun field => do
        return (field.1, ← parameterWith (scorerWith fuel) field.2)
      let resources ← match j.get "resources" with
        | .object fields => do
          let resources ← fields.mapM fun field => do
            return (field.1, ← resourceWith (scorerWith fuel) field.2)
          pure (some resources)
        | _ => pure none
      lift (Scorer.create parameters resources)
    else return .abstract

def scorer (j : Json) : Decode Scorer := scorerWith (j.depth + 1) j

/-- A feature key: its texts, or a text whose characters are the key. -/
def featureKey (j : Json) : FeatureKey :=
  match j with
  | .text s => s.toList.map String.singleton
  | j => j.items.map Json.toText

/-- A value that takes the place of a number: a text is read at once, and any other value is left to
whoever needs a number. -/
def numeric (j : Json) : Decode Value := do
  match ← value j with
  | .text s => return .real (← lift (Value.text s).toFloat)
  | v => return v

/-- Pairs of keys and values that take the place of numbers. -/
def pairs (j : Json) : Decode (List (FeatureKey × Value)) :=
  j.items.mapM fun pair => do
    return (featureKey (pair.items.getD 0 .null), ← numeric (pair.items.getD 1 .null))

/-- The vector of pairs whose values are taken for numbers. -/
def vector (pairs : List (FeatureKey × Value)) : Except Fault (SparseVector Number) := do
  return .ofPairs (← pairs.mapM fun pair => return (pair.1, .real (← pair.2.toFloat)))

def lexicalFeatures (j : Json) : Decode LexicalFeatures := do
  let initial ← match j.get "init" with
    | .null => pure Scorer.zero
    | s => scorer s
  return ⟨j.textOr "name" "LEX", initial⟩

/-- The value of a feature. It is read at once, and its fault is left to whoever needs the value. -/
def featureScale (j : Json) : Decode (Except Fault Number) :=
  attempt (fieldOr j "scale" (.real 1.0) number)

/-- A feature set for rules. -/
def ruleFeatures (j : Json) : Decode (RuleFeatures Number) := do
  match j with
  | .text _ => return .abstract
  | j => return .usage (j.textOr "name" "RULE") (← featureScale j)

def executionFeatures (j : Json) : Decode (ExecutionFeatures Number) := do
  match j with
  | .text _ => return .abstract
  | j => return .emptyResult (j.textOr "name" "EXEC") (← featureScale j)

def model (j : Json) : Decode (Model Number) := do
  let lexical ← match j.get "lex" with
    | .null => pure [LexicalFeatures.default]
    | fs => fs.items.mapM lexicalFeatures
  let rules ← (j.get "rule").items.mapM ruleFeatures
  let executions ← (j.get "joint").items.mapM executionFeatures
  let theta ← lift (vector (← pairs (j.get "theta")))
  let entries ← (j.get "lexicon").items.mapM entry
  lift (Model.create (Lexicon.ofList entries).entries lexical rules executions theta)

end Categorial.Decode
