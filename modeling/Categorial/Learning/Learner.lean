import Categorial.Learning.Config
import Categorial.Learning.Observer

/-!
Learning from validated results. For each item the learner first looks for entries: it parses the
item with the proposed entries and learns those that the best valid parses use, with the entries
linked to them. Then it parses the item with the model and moves the weights from the invalid parses
that score too well towards the best valid ones.
-/

namespace Categorial

/-- A learner. Without a perceptron it is left open how weights change. How times are recorded is up
to the timer; whatever it does, it sees its meters alone. -/
structure Learner (K : Type) where
  items : List Item
  analyzer : Analyzer K
  config : LearnerConfig
  perceptron : Option (Perceptron K)
  observers : List Observer
  timer : Timer K

/-- The parses that reach the greatest score. -/
def Parse.top {K : Type} [Scalar K] : List (Parse K) → List (Parse K)
  | [] => []
  | p :: ps =>
    (p :: ps).filter fun q => Scalar.same q.score (Scalar.maximum p.score (ps.map Parse.score))

/-- The parses that reach the greatest score are among the parses. -/
theorem Parse.mem_of_mem_top {K : Type} [Scalar K] {ps : List (Parse K)} {p : Parse K}
    (h : p ∈ top ps) : p ∈ ps := by
  cases ps with
  | nil => exact h
  | cons q qs => exact (List.mem_filter.1 h).1

namespace Perceptron

variable {K : Type} [Scalar K]

def meanFeatures (m : Model K) (ps : List (Parse K)) : Except Fault (SparseVector K) :=
  (ps.mapM (Parse.features m)).map SparseVector.mean

/-- The direction in which the parses of an item move the weights: from the mean of the invalid ones
within the margin to the mean of the best valid ones. There is none if a side is empty or the means
are equal. Valid parses none of which is the best, because the greatest score is undefined, give no
score to compare with, which is a fault. -/
def direction? (p : Perceptron K) (m : Model K) (item : Item) (parses : List (Parse K)) :
    Except Fault (Option (SparseVector K)) := do
  let judged ← parses.mapM fun q => (item.isValid q.result).map fun valid => (q, valid)
  let valid := (judged.filter (·.2)).map (·.1)
  match Parse.top valid with
  | [] => if valid.isEmpty then return none else .error .noPosition
  | good :: goods =>
    let threshold ← Scalar.minus good.score p.margin
    let bads := (judged.filter fun q => !q.2 && Scalar.le threshold q.1.score).map (·.1)
    if bads.isEmpty then return none
    let towards ← meanFeatures m (good :: goods)
    let away ← meanFeatures m bads
    let delta := (towards.sub away).dropZeros 0
    return if delta.size = 0 then none else some delta

end Perceptron

namespace Learner

variable {K : Type} [Scalar K]

/-- Shows an event to the observers. -/
def notify (l : Learner K) (event : Event K) : Training K Unit := Observer.notify l.observers event

/-- Parses an item. -/
def analyze (l : Learner K) (item : Item) (options : ParseOptions) : Training K (Analysis K) := do
  let s ← Training.session
  Training.traced (l.analyzer.analyze s.model item.tokens item.state options)

/-- Learns an entry, and gives the number of entries that were new. -/
def learn (l : Learner K) (place : Place) (linked : Bool) (e : Entry) : Training K Int := do
  let s ← Training.session
  let e := e.withOrigin .learned
  let (outcome, model) := s.model.addEntry e
  Training.change fun s => { s with model := model }
  let new ← Training.lift outcome
  if new then
    l.notify (.entryAdded place e linked)
    return 1
  else return 0

/-- Learns an entry that a parse uses, and those linked to it. Entries that skip tokens are no
knowledge. -/
def learnUsed (l : Learner K) (place : Place) (new : Int) (e : Entry) : Training K Int := do
  if e.origin = .skipping then return new
  else
    let first ← l.learn place false e
    e.linked.foldlM (fun n linked => (n + ·) <$> l.learn place true linked) (new + first)

/-- Looks for entries in an item: the entries that the best valid parses use are learned. -/
def induce (l : Learner K) (place : Place) (item : Item) : Training K Unit := do
  let proposed ← Training.lift item.generate
  if proposed.size = 0 then l.notify (.induced place item ⟨proposed, none, [], []⟩)
  else
    let analysis ← l.analyze item ⟨some proposed, some l.config.inductionBeam⟩
    Training.record fun s => s.recordInductionBy l.timer analysis.seconds
    let valid ← Training.lift (analysis.parses.filterM fun p => item.isValid p.result)
    let best := Parse.top valid
    l.notify (.induced place item ⟨proposed, some analysis, valid, best⟩)
    let new ← (best.flatMap Parse.entries).foldlM (l.learnUsed place) 0
    Training.count fun s => s.countEntries place.epoch place.index new

/-- Moves the weights after the parse of an item. -/
def update (l : Learner K) (place : Place) (item : Item) (parses : List (Parse K)) :
    Training K Unit := do
  match l.perceptron with
  | none => Training.lift (.error .unimplemented)
  | some p =>
    let s ← Training.session
    let direction ← Training.lift (p.direction? s.model item parses)
    match direction with
    | none => return ()
    | some delta =>
      let step ← Training.lift (p.stepSize s.updates)
      Training.change fun s =>
        { s with model := { s.model with theta := s.model.theta.addTimes step delta } }
      Training.change fun s => { s with updates := s.updates + 1 }
      Training.count fun s => s.count place.epoch .updates 1
      l.notify (.updated place delta step)

/-- Learns from an item, unless it is too long. -/
def trainItem (l : Learner K) (place : Place) (item : Item) : Training K Unit := do
  l.notify (.exampleStart place item)
  if l.config.maxTokens.lt (.int item.tokens.length) then
    Training.count fun s => s.count place.epoch .skipped 1
    l.notify (.exampleSkipped place (toString item.tokens.length
      ++ " tokens > max_sentence_length=" ++ l.config.maxTokens.text))
  else
    if l.config.learnsEntries then l.induce place item else pure ()
    let analysis ← l.analyze item .plain
    Training.record fun s => s.recordModelBy l.timer analysis.seconds
    l.notify (.analyzed place item analysis)
    l.update place item analysis.parses
    Training.count fun s => s.count place.epoch .processed 1
    l.notify (.exampleEnd place)

/-- Learns from all items once. -/
def trainEpoch (l : Learner K) (epoch : Nat) : Training K Unit := do
  l.notify (.epochStart epoch)
  l.items.zipIdx.forM fun (item, index) => l.trainItem ⟨epoch, index⟩ item
  l.notify (.epochEnd epoch)

/-- Learns from all items, epoch after epoch. -/
def train (l : Learner K) : Training K Unit := do
  let epochs ← Training.lift l.config.epochs.whole
  (List.range epochs.toNat).forM l.trainEpoch

/-- Learns several times in one session. -/
def trainTimes (l : Learner K) (times : Nat) : Training K Unit :=
  (List.range times).forM fun _ => l.train

/-- The session that a learner starts with. -/
def start (l : Learner K) (m : Model K) : Session K :=
  ⟨m, Stats.start l.config.epochs (.int l.items.length), 0, [], [], []⟩

end Learner

end Categorial
