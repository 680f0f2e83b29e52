import Categorial.Learning.Session

/-!
Observers of learning: one keeps a trace, one keeps the events themselves, one does nothing, and one
writes reports. An observer that judges parses may fail because the validator of the item fails, and
one that writes a score down may fail because the score has no decimal text.
-/

namespace Categorial

inductive Observer where
  | tracing
  | recording
  | silent
  /-- Reports at most `limit` parses of an item, if there is a limit; a negative one leaves that
  many out at the end. Parses that teach are described in detail if `verbose`. -/
  | reporting (limit : Option Number) (verbose : Bool)

namespace Observer

variable {K : Type} [Scalar K]

/-- The first elements of a list, up to a whole limit; a negative limit counts from the end. -/
def upTo {α : Type} (limit : Option Number) (xs : List α) : Except Fault (List α) :=
  match limit with
  | none => .ok xs
  | some limit => do
    let n ← limit.whole
    return if n < 0 then xs.take (n + xs.length).toNat else xs.take n.toNat

/-- Reports a line. -/
def inform (text : String) : Training K Unit := .note (.report .info text)

/-- Reports lines. -/
def informAll (texts : List String) : Training K Unit := texts.forM inform

/-- Each parse of an item, whether its result matches the label, and whether it is valid. -/
def judge (item : Item) (ps : List (Parse K)) : Except Fault (List (String × Bool × Bool)) :=
  ps.mapM fun p => do
    let text ← p.text
    let valid ← item.isValid p.result
    return (text, item.matchesLabel p.result, valid)

/-- Writes an event into the trace. -/
def keepTrace (event : Event K) : Training K Unit := do
  let keep (t : Trace K) : Training K Unit := .change fun s => { s with trace := s.trace ++ [t] }
  match event with
  | .exampleSkipped place reason => keep (.skipped place reason)
  | .induced place _ induction =>
    let valid ← Training.lift (induction.valid.mapM Parse.text)
    let best ← Training.lift (induction.best.mapM Parse.text)
    keep (.induced place induction.proposed.entries
      (induction.analysis.map fun a => a.parses.length) valid best)
  | .entryAdded place entry linked => keep (.added place entry linked)
  | .analyzed place item analysis =>
    let judged ← Training.lift (judge item analysis.parses)
    keep (.judged place judged)
  | .updated place delta step =>
    let s ← Training.session
    keep (.updated place delta step s.model.theta)
  | _ => pure ()

/-- The line of a parse in a report; results that match the label are marked. -/
def parseLine (item : Item) (p : Parse K) (valid : Bool) : Except Fault String := do
  let score ← Scalar.shown 2 p.score
  return (if item.matchesLabel p.result then "* " else "  ") ++ "[" ++ score
    ++ (if valid then ", V" else ", X") ++ "] " ++ (← p.text)

/-- The weights of the features of an entry. -/
def weights (m : Model K) (e : Entry) : String := m.theta.format (m.entryFeatures e).keys

/-- Reports the score and the weights of an entry. -/
def describeEntry (m : Model K) (e : Entry) : Training K Unit := do
  let score ← Training.lift ((m.scoreEntry e).bind (Scalar.shown 4))
  inform ("\t[" ++ score ++ "] " ++ e.text ++ " [" ++ weights m e ++ "]")

/-- Reports the entries, the rules and the features of a parse. -/
def describe (p : Parse K) : Training K Unit := do
  let s ← Training.session
  let m := s.model
  p.entries.forM (describeEntry m)
  inform ("Rules used: " ++ ", ".intercalate (p.rules.map (·.text)))
  let features ← Training.lift (p.features m)
  inform (m.theta.format features.keys)

/-- Reports a parse that teaches. -/
def reportTeacher (verbose : Bool) (item : Item) (p : Parse K) : Training K Unit := do
  inform (← Training.lift (parseLine item p true))
  if verbose then describe p else pure ()

/-- Reports a parse of the model. -/
def reportParse (item : Item) (p : Parse K) : Training K Unit := do
  let valid ← Training.lift (item.isValid p.result)
  inform (← Training.lift (parseLine item p valid))

/-- Reports what came of proposed entries. -/
def reportInduction (verbose : Bool) (item : Item) (induction : Induction K) :
    Training K Unit := do
  inform ("Generated lexicon size = " ++ toString induction.proposed.size)
  match induction.analysis with
  | none => inform "Skipped lexical induction. No generated lexical entries."
  | some analysis =>
    informAll [
      "Lexicon induction parsing time: " ++ Scalar.fixed 4 analysis.seconds ++ "sec",
      "Created " ++ toString analysis.parses.length
        ++ " lexicon generation parses for training sample",
      "Removed " ++ toString ((analysis.parses.length : Int) - induction.valid.length)
        ++ " invalid parses",
      toString induction.best.length ++ " valid best parses for lexical generation:"]
    induction.best.forM (reportTeacher verbose item)

def report (limit : Option Number) (verbose : Bool) (event : Event K) : Training K Unit := do
  match event with
  | .epochStart epoch =>
    informAll ["=========================", "Training epoch " ++ toString epoch,
      "========================="]
  | .exampleStart place item =>
    informAll [toString place.index ++ " : ================== [" ++ toString place.epoch ++ "]",
      "Sample type: LexGenValidationDataItem", item.text]
  | .exampleSkipped _ reason =>
    Training.note (.report .warning ("Training sample skipped: " ++ reason ++ "."))
  | .induced _ item induction => reportInduction verbose item induction
  | .entryAdded _ entry linked =>
    let s ← Training.session
    inform ((if linked then "Added (linked) LexicalEntry to model: "
      else "Added LexicalEntry to model: ") ++ entry.text ++ " [" ++ weights s.model entry
      ++ "]")
  | .analyzed _ item analysis =>
    informAll [
      "Created " ++ toString analysis.parses.length ++ " model parses for training sample",
      "Model parsing time: " ++ Scalar.fixed 4 analysis.seconds ++ "sec"]
    let shown ← Training.lift (upTo limit analysis.parses)
    shown.forM (reportParse item)
  | .updated _ delta step =>
    inform ("Update (step=" ++ Scalar.fixed 4 step ++ "): " ++ delta.formatAll)
  | .exampleEnd _ =>
    inform ("Total sample handling time: " ++ Scalar.fixed 4 (0 : K) ++ "sec")
  | .epochEnd _ =>
    let s ← Training.session
    inform ("Epoch stats:\n" ++ s.stats.summary)

/-- What an observer does with an event. -/
def watch (event : Event K) : Observer → Training K Unit
  | tracing => keepTrace event
  | recording => .change fun s => { s with events := s.events ++ [event] }
  | silent => pure ()
  | reporting limit verbose => report limit verbose event

/-- Shows an event to observers, one after the other. -/
def notify (observers : List Observer) (event : Event K) : Training K Unit :=
  observers.forM (watch event)

end Observer

end Categorial
