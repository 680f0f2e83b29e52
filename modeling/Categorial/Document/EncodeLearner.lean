import Categorial.Document.EncodeParse
import Categorial.Learning.Learner

/-!
Documents that show settings, items and what learning has led to.
-/

namespace Categorial

/-- The document that shows a number; one that is not finite is marked. -/
def Number.toJson : Number → Json
  | int n => .int n
  | truth b => .bool b
  | real x => if x.isFinite then .real x else .object [("float", .text (Decimal.shortest x))]

/-- A field that shows a flag the way it was given in a document. -/
def Json.flagField (given : Json) (name : String) (flag : Bool) : String × Json :=
  (name, (given.get? name).getD (.bool flag))

/-- The fields that show settings of a parser, which were given in a document. -/
def ParserConfig.toFields (c : ParserConfig) (given : Json) : List (String × Json) :=
  [("beam_size", c.beamSize.toJson), ("root_syntax", (c.root.map Typing.nameJson).getD .null),
    given.flagField "allow_word_skipping" c.skipsWords, ("num_workers", c.workers.toJson)]

/-- The fields that show settings of a learner, which were given in a document. -/
def LearnerConfig.toFields (c : LearnerConfig) (given : Json) : List (String × Json) :=
  [("num_epochs", c.epochs.toJson), ("max_sentence_length", c.maxTokens.toJson),
    ("lexicon_generation_beam_size", c.inductionBeam.toJson),
    given.flagField "lexicon_learning" c.learnsEntries]

def Perceptron.toFields (p : Perceptron Number) : List (String × Json) :=
  [("learning_rate", p.learningRate.toJson), ("margin", p.margin.toJson),
    ("decay", p.decay.toJson)]

def Place.toJson (p : Place) : Json := .array [.nat p.epoch, .nat p.index]

def Event.toJson (e : Event Number) : Json :=
  .array [.text e.name, .nat e.epoch, e.index?.elim .null Json.nat]

def Trace.toJson : Trace Number → Json
  | skipped place reason => record "skipped" place [("reason", .text reason)]
  | induced place proposed parses valid best => record "generation" place
      [("generated", .texts (proposed.map (·.text))), ("parses", parses.elim .null Json.nat),
        ("valid", .texts valid), ("best", .texts best)]
  | added place entry linked => record "added" place
      [("entry", .text entry.text), ("linked", .bool linked)]
  | judged place parses => record "model" place [("parses", .array (parses.map fun p =>
      .array [.text p.1, .bool p.2.1, .bool p.2.2]))]
  | updated place delta step theta => record "update" place
      [("delta", delta.toJson), ("step", step.weightJson), ("theta", theta.toJson)]
where
  /-- The document of one entry. -/
  record (on : String) (place : Place) (fields : List (String × Json)) : Json :=
    .object (("on", .text on) :: ("at", place.toJson) :: fields)

/-- The document that shows what a session has led to, and the fault that ended it. -/
def Session.toJson (s : Session Number) (l : Learner Number) (outcome : Except Fault Unit) :
    Except Fault Json := do
  let events := s.events.map Event.toJson
  let failure := match outcome with
    | .ok () => []
    | .error fault => fault.toFields
  let steps ← match l.perceptron with
    | none => pure []
    | some p => do
      let step ← p.stepSize s.updates
      pure [("updates", Json.nat s.updates), ("step", step.weightJson)]
  return .object ([("trace", .array (s.trace.map Trace.toJson)), ("events", .array events),
    ("update_events", .array ((s.events.filter Event.isUpdate).map Event.toJson)),
    ("added", .texts ((s.events.filterMap Event.entry?).map (·.text))),
    ("lexicon", .texts (s.model.lexicon.entries.map (·.text))),
    ("theta", s.model.theta.toJson), ("stats", .text s.stats.summary),
    ("new", .array ((List.range l.items.length).map fun (i : Nat) =>
      .int (s.stats.entriesOf i 0)))] ++ steps ++ failure)

end Categorial
