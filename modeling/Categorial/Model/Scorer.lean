import Categorial.Lexicon.Entry
import Categorial.Number

/-!
Scorers give an entry a number, which becomes the weight of the entry when it is learned. A skipped
token has a cost of its own; other scores grow with the number of tokens, are the same for all
entries, or are multiples of another scorer's. Other classes may score in their own ways.
-/

namespace Categorial

/-- A thing that is no scorer. -/
inductive Scorer.Thing where
  | value (v : Value)
  | category (c : Category)

namespace Scorer.Thing

def className : Thing → String
  | value v => v.className
  | category _ => "Category"

def text : Thing → String
  | value v => v.display
  | category c => c.text

/-- The text of a thing inside another value. -/
def shown : Thing → String
  | value v => v.shown
  | category c => c.shown

/-- The fault that a thing refuses to be a key with, if it does. -/
def keyFault? : Thing → Option Fault
  | value v => v.keyFault?
  | category c => c.keyFault?

end Scorer.Thing

/-- A scorer of a class of its own. It gives entries that are the same the same score. -/
structure Scorer.Custom where
  label : String
  score : Entry → Except Fault Number
  score_of_same : ∀ {e e' : Entry}, e.same e' = true → score e = score e'

inductive Scorer where
  /-- The same score for all entries. -/
  | uniform (value : Number)
  /-- `coefficient * length ^ exponent`. -/
  | length (coefficient exponent : Number)
  | scaled (scale : Number) (base : Scorer)
  /-- `cost` for entries of the empty category, if there is one, and the base's score for others. -/
  | skipping (empty : Option Category) (cost : Number) (base : Scorer)
  | custom (scorer : Scorer.Custom)
  /-- A scorer that leaves the score open. -/
  | abstract
  /-- A thing that was named where a scorer belongs. It has no score. -/
  | misplaced (thing : Scorer.Thing)

namespace Scorer

/-- The score that the entries have if nothing else is said. -/
def zero : Scorer := .uniform (.real 0.0)

def score : Scorer → Entry → Except Fault Number
  | uniform value, _ => .ok value
  | length coefficient exponent, e => do
    let power ← Number.power e.tokens.length exponent
    coefficient.mul power
  | scaled scale base, e => do
    let score ← base.score e
    scale.mul score
  | skipping empty cost base, e =>
    if empty.any fun c => e.category.same c then .ok cost else base.score e
  | custom scorer, e => scorer.score e
  | abstract, _ => .error .unimplemented
  | misplaced thing, _ =>
    .error (.raised .member ("'" ++ thing.className ++ "' object has no attribute 'score'"))

def text : Scorer → String
  | uniform value => "UniformScorer(" ++ value.text ++ ")"
  | length coefficient exponent =>
    "LengthLexicalEntryScorer(" ++ coefficient.text ++ " * len ** " ++ exponent.text ++ ")"
  | scaled scale base => "ScaledScorer(" ++ scale.text ++ " * " ++ base.text ++ ")"
  | skipping _ cost base =>
    "SkippingSensitiveLexicalEntryScorer(cost=" ++ cost.text ++ ", base=" ++ base.text ++ ")"
  | custom scorer => scorer.label
  | abstract => "Scorer"
  | misplaced thing => thing.text

end Scorer

end Categorial
