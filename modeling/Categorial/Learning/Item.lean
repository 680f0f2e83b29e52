import Categorial.Lexicon.Basic
import Categorial.Meaning.Equality

/-!
Training items: a sentence in a state, with a generator that proposes entries for it and a validator
that judges results. Without a validator a result is valid if it is equal to the label. The label
shows what the right result would be, and is there for reports.
-/

namespace Categorial

structure Item where
  tokens : List String
  state : Value
  /-- The right result; no meaning stands for none known. -/
  label : Value
  /-- Proposes entries for the tokens. -/
  generator : Option (List String → Except Fault Lexicon)
  validator : Option (Value → Except Fault Bool)

namespace Item

/-- The lexicon of the entries proposed for an item. -/
def generate (item : Item) : Except Fault Lexicon :=
  match item.generator with
  | none => .ok .empty
  | some generator => generator item.tokens

/-- Whether a result is the same as the label. -/
def matchesLabel (item : Item) (result : Value) : Bool :=
  !item.label.isNone && result.equal item.label

def isValid (item : Item) (result : Value) : Except Fault Bool :=
  match item.validator with
  | some validator => validator result
  | none => .ok (item.matchesLabel result)

/-- The text of an item: its tokens, and its label if it has one. -/
def text (item : Item) : String :=
  " ".intercalate item.tokens ++ (if item.label.isNone then "" else " => " ++ item.label.display)

def listText (items : List Item) : String := "DataCollection(size=" ++ toString items.length ++ ")"

end Item

end Categorial
