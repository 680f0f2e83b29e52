import Categorial.Document.DecodeParser
import Categorial.Learning.Learner

/-!
Settings of learners, and learners, out of documents.
-/

namespace Categorial.Decode

def learnerConfig (j : Json) : Decode LearnerConfig := do
  let epochs ← fieldOr j "num_epochs" (.int 1) setting
  let maxTokens ← fieldOr j "max_sentence_length" (.int 50) setting
  let inductionBeam ← fieldOr j "lexicon_generation_beam_size" (.int 100) setting
  lift (LearnerConfig.create epochs maxTokens inductionBeam (j.flag "lexicon_learning" true))

/-- Settings of a learner with a perceptron. All of its numbers are read before any is checked. -/
def perceptronConfig (j : Json) : Decode (LearnerConfig × Perceptron Number) := do
  let learningRate ← fieldOr j "learning_rate" (.real 1.0) number
  let margin ← fieldOr j "margin" (.real 0.0) number
  let decay ← fieldOr j "decay" (.real 0.0) number
  let config ← learnerConfig j
  let perceptron : Perceptron Number := ⟨learningRate, margin, decay⟩
  lift perceptron.check
  return (config, perceptron)

def observers (j : Json) : List Observer :=
  let verbose := j.flag "verbose" true
  let usual := some (.int 5)
  if j.flag "default_observers" false then [.reporting usual verbose]
  else [.tracing, .recording, .silent] ++
    if (j.get "log").truth then [.reporting ((j.get? "max_logged").elim usual number?) verbose]
    else []

def learner (j : Json) : Decode (Learner Number) := do
  let analyzer ← analyzer j
  let (config, perceptron) ←
    if j.flag "abstract" false then do pure (← learnerConfig (j.get "learner"), none)
    else (fun c => (c.1, some c.2)) <$> perceptronConfig (j.get "learner")
  let items ← (j.get "items").items.mapM item
  return ⟨items, analyzer, config, perceptron, observers j, Meter.record⟩

end Categorial.Decode
