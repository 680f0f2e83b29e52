import Categorial.Learning.Item
import Categorial.Parsing.Analyzer

/-!
What happens during learning, as events. An event carries what its observers may want to look at.
-/

namespace Categorial

/-- Where learning stands: the epoch, and the position of the item. -/
structure Place where
  epoch : Nat
  index : Nat
  deriving DecidableEq, Repr

/-- The parse that proposed entries took part in, which is left out if nothing was proposed, its
valid parses and the best of these. -/
structure Induction (K : Type) where
  proposed : Lexicon
  analysis : Option (Analysis K)
  valid : List (Parse K)
  best : List (Parse K)

inductive Event (K : Type) where
  | epochStart (epoch : Nat)
  | exampleStart (place : Place) (item : Item)
  | exampleSkipped (place : Place) (reason : String)
  | induced (place : Place) (item : Item) (induction : Induction K)
  | entryAdded (place : Place) (entry : Entry) (linked : Bool)
  | analyzed (place : Place) (item : Item) (analysis : Analysis K)
  | updated (place : Place) (delta : SparseVector K) (step : K)
  | exampleEnd (place : Place)
  | epochEnd (epoch : Nat)

namespace Event

variable {K : Type}

def name : Event K → String
  | epochStart .. => "epoch_start"
  | exampleStart .. => "example_start"
  | exampleSkipped .. => "example_skipped"
  | induced .. => "generation_output"
  | entryAdded .. => "lexical_entry_added"
  | analyzed .. => "model_output"
  | updated .. => "parameter_update"
  | exampleEnd .. => "example_end"
  | epochEnd .. => "epoch_end"

def epoch : Event K → Nat
  | epochStart epoch | epochEnd epoch => epoch
  | exampleStart place _ | exampleSkipped place _ | induced place _ _ | entryAdded place _ _
  | analyzed place _ _ | updated place _ _ | exampleEnd place => place.epoch

/-- The position of the item of an event, if it is about one. -/
def index? : Event K → Option Nat
  | epochStart _ | epochEnd _ => none
  | exampleStart place _ | exampleSkipped place _ | induced place _ _ | entryAdded place _ _
  | analyzed place _ _ | updated place _ _ | exampleEnd place => some place.index

/-- The entry that an event added. -/
def entry? : Event K → Option Entry
  | entryAdded _ entry _ => some entry
  | _ => none

def isUpdate : Event K → Bool
  | updated .. => true
  | _ => false

end Event

/-- What an observer that keeps a trace writes down of an event; parses are written as texts. -/
inductive Trace (K : Type) where
  | skipped (place : Place) (reason : String)
  /-- The proposed entries, the number of parses with them unless there was nothing to parse with,
  the valid parses and the best of these. -/
  | induced (place : Place) (proposed : List Entry) (parses : Option Nat)
      (valid best : List String)
  | added (place : Place) (entry : Entry) (linked : Bool)
  /-- Each parse, whether its result matches the label, and whether it is valid. -/
  | judged (place : Place) (parses : List (String × Bool × Bool))
  /-- An update with the weights after it. -/
  | updated (place : Place) (delta : SparseVector K) (step : K) (theta : SparseVector K)

end Categorial
