import Categorial.Parsing.Config
import Categorial.Scalar

/-!
Settings of learning. Those of every learner are checked before those of the perceptron, each in a
fixed order.
-/

namespace Categorial

structure LearnerConfig where
  /-- The number of passes over the items. -/
  epochs : Number
  /-- Longer items are skipped. -/
  maxTokens : Number
  /-- The beam size of the parse that proposed entries take part in. -/
  inductionBeam : Number
  /-- Whether entries are learned. -/
  learnsEntries : Bool

namespace LearnerConfig

def create (epochs maxTokens inductionBeam : Number) (learnsEntries : Bool) :
    Except Fault LearnerConfig := do
  requirePositive "num_epochs" epochs
  requirePositive "max_sentence_length" maxTokens
  requirePositive "lexicon_generation_beam_size" inductionBeam
  return ⟨epochs, maxTokens, inductionBeam, learnsEntries⟩

end LearnerConfig

/-- Settings of the perceptron: the first step size, how far behind the best valid parse an invalid
one may be and still count against it, and how fast the step size decays. -/
structure Perceptron (R : Type) where
  learningRate : R
  margin : R
  decay : R

namespace Perceptron

def check (p : Perceptron Number) : Except Fault Unit := do
  requirePositive "learning_rate" p.learningRate
  if p.margin.isNegative then .error (.isNegative "margin" p.margin.text)
  if p.decay.isNegative then .error (.isNegative "decay" p.decay.text)

variable {K : Type} [Scalar K]

/-- The size of the step after `t` updates. -/
def stepSize (p : Perceptron K) (t : Nat) : Except Fault K := do
  let slowing ← Scalar.times p.decay (Scalar.ofNat t)
  Scalar.dividedBy p.learningRate (← Scalar.plus (Scalar.ofNat 1) slowing)

end Perceptron

end Categorial
