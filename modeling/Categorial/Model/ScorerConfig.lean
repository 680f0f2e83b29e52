import Categorial.Model.Scorer
import Categorial.Meaning.Call

/-!
Scorers from parameters. The type of a scorer selects which parameters it takes; numbers may be
written as text, and a base scorer may be given itself or by the name of a resource. A missing or
malformed parameter is reported when the scorer is made.
-/

namespace Categorial.Scorer

/-- What a parameter holds, or what is named by one. -/
inductive Parameter where
  | thing (t : Thing)
  | scorer (s : Scorer)

abbrev Parameters := List (String × Parameter)

/-- The named resources, if there are any. -/
abbrev Resources := Option (List (String × Parameter))

/-- The name of the resource that is the category of skipped tokens. -/
def emptyCategoryResource : String := "empty_category"

/-- The floating-point value that a thing stands for. -/
def Thing.toFloat : Thing → Except Fault Float
  | value v => v.toFloat
  | t => .error (.neverNumeric t.className)

def number (parameters : Parameters) (key : String) (default : Option Number) :
    Except Fault Number :=
  match parameters.lookup key with
  | none => match default with
    | some n => .ok n
    | none => .error (.missingParameter key)
  | some (.scorer s) => .error (.invalidParameter key s.text)
  | some (.thing t) =>
    match t.toFloat with
    | .ok x => .ok (.real x)
    | .error .tooLarge => .error .tooLarge
    | .error _ => .error (.invalidParameter key t.shown)

def resource? (resources : List (String × Parameter)) (name : Thing) : Option Parameter :=
  match name with
  | .value (.text s) => resources.lookup s
  | _ => none

def scorerOf (parameters : Parameters) (key : String) (resources : Resources) :
    Except Fault Scorer :=
  match parameters.lookup key with
  | none => .error (.missingParameter key)
  | some (.scorer s) => .ok s
  | some (.thing t) =>
    match resources with
    | none => .error (.unknownResource key t.shown)
    | some resources =>
      match t.keyFault? with
      | some fault => .error fault
      | none => match resource? resources t with
        | none => .error (.unknownResource key t.shown)
        | some (.scorer s) => .ok s
        | some (.thing t) => .ok (.misplaced t)

/-- The scorer, or its multiple if there is a scale among the parameters. -/
def maybeScaled (parameters : Parameters) (s : Scorer) : Except Fault Scorer :=
  if (parameters.lookup "scale").isSome then do
    let scale ← number parameters "scale" none
    return .scaled scale s
  else .ok s

/-- The category of skipped tokens among the resources. Anything else in its place is no category.
-/
def emptyCategory (resources : Resources) : Option Category :=
  match resources.bind fun resources => resources.lookup emptyCategoryResource with
  | none => some .empty
  | some (.thing (.category c)) => some c
  | some _ => none

/-- The scorer that the type named among the parameters makes of the others. -/
def create (parameters : Parameters) (resources : Resources) : Except Fault Scorer :=
  match (parameters.lookup "type").getD (.thing (.value .none)) with
  | .scorer s => .error (.unknownScorer s.text)
  | .thing type =>
    match type.keyFault? with
    | some fault => .error fault
    | none => match type with
    | .value (.text "scorer.uniform") => do
      maybeScaled parameters (.uniform (← number parameters "value" none))
    | .value (.text "scorer.scaled") => do
      let scale ← number parameters "scale" none
      let base ← scorerOf parameters "baseScorer" resources
      return .scaled scale base
    | .value (.text "scorer.lex.length") => do
      let coefficient ← number parameters "coef" none
      let exponent ← number parameters "exp" (some (.real 1.0))
      maybeScaled parameters (.length coefficient exponent)
    | .value (.text "scorer.lex.skipping") => do
      let cost ← number parameters "cost" none
      let base ← scorerOf parameters "baseScorer" resources
      maybeScaled parameters (.skipping (emptyCategory resources) cost base)
    | _ => .error (.unknownScorer type.text)

end Categorial.Scorer
