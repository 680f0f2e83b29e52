import Mathlib.Tactic.Positivity
import Categorial.Proofs.Learning.Margin
import Categorial.Proofs.Learning.Visits

/-!
The mistake bound of the perceptron, over rational numbers. Every move of a run has a direction
whose inner product with the weights before the move is at most the margin. So the weights grow
slowly, while every vector that scores all directions well sees them grow at a steady rate, and by
the Cauchy–Schwarz inequality this goes on for a bounded number of moves. Main statement: the
mistake bound of a run of the learner, whatever the number of items and epochs.
-/

namespace Categorial

namespace Move

variable {theta u : SparseVector Rat} {rate margin g r : Rat} {moves : List (Move Rat)}

/-- Moves of one size whose directions a vector scores by `g` or more take the weights towards
it. -/
theorem le_dot_weightsAfter (hrate : 0 ≤ rate) (hchain : Chain theta moves)
    (hstep : ∀ mv ∈ moves, mv.step = rate) (hgain : ∀ mv ∈ moves, g ≤ u.dot mv.delta) :
    u.dot theta + rate * moves.length * g ≤ u.dot (weightsAfter theta moves) := by
  induction moves generalizing theta with
  | nil => simp [weightsAfter]
  | cons mv moves ih =>
    obtain ⟨rfl, hchain⟩ := hchain
    have hrest := ih hchain (fun mv h => hstep mv (List.mem_cons_of_mem _ h))
      (fun mv h => hgain mv (List.mem_cons_of_mem _ h))
    have hfirst : rate * g ≤ rate * u.dot mv.delta :=
      mul_le_mul_of_nonneg_left (hgain mv List.mem_cons_self) hrate
    rw [after, hstep mv List.mem_cons_self, SparseVector.dot_addTimes] at hrest
    rw [weightsAfter, List.length_cons, Nat.cast_succ, after, hstep mv List.mem_cons_self]
    linarith

/-- Moves of one size whose directions the weights score at most by the margin let the weights grow
slowly. -/
theorem dot_self_weightsAfter_le (hrate : 0 ≤ rate) (hchain : Chain theta moves)
    (hstep : ∀ mv ∈ moves, mv.step = rate) (hmargin : ∀ mv ∈ moves, mv.theta.dot mv.delta ≤ margin)
    (hnorm : ∀ mv ∈ moves, mv.delta.dot mv.delta ≤ r ^ 2) :
    (weightsAfter theta moves).dot (weightsAfter theta moves) ≤
      theta.dot theta + moves.length * (rate ^ 2 * r ^ 2 + 2 * rate * margin) := by
  induction moves generalizing theta with
  | nil => simp [weightsAfter]
  | cons mv moves ih =>
    obtain ⟨rfl, hchain⟩ := hchain
    have hrest := ih hchain (fun mv h => hstep mv (List.mem_cons_of_mem _ h))
      (fun mv h => hmargin mv (List.mem_cons_of_mem _ h))
      (fun mv h => hnorm mv (List.mem_cons_of_mem _ h))
    have hcross : rate * mv.theta.dot mv.delta ≤ rate * margin :=
      mul_le_mul_of_nonneg_left (hmargin mv List.mem_cons_self) hrate
    have hsquare : rate ^ 2 * mv.delta.dot mv.delta ≤ rate ^ 2 * r ^ 2 :=
      mul_le_mul_of_nonneg_left (hnorm mv List.mem_cons_self) (sq_nonneg rate)
    rw [after, hstep mv List.mem_cons_self, SparseVector.dot_self_addTimes] at hrest
    rw [weightsAfter, List.length_cons, Nat.cast_succ, after, hstep mv List.mem_cons_self]
    linarith

/-- Such moves are few, if there is a vector that scores all their directions by `g` or more. -/
theorem sq_count_le (hrate : 0 ≤ rate) (hchain : Chain theta moves)
    (hstep : ∀ mv ∈ moves, mv.step = rate) (hmargin : ∀ mv ∈ moves, mv.theta.dot mv.delta ≤ margin)
    (hgain : ∀ mv ∈ moves, g ≤ u.dot mv.delta)
    (hnorm : ∀ mv ∈ moves, mv.delta.dot mv.delta ≤ r ^ 2)
    (hstart : 0 ≤ u.dot theta + rate * moves.length * g) :
    (u.dot theta + rate * moves.length * g) ^ 2 ≤
      u.dot u * (theta.dot theta + moves.length * (rate ^ 2 * r ^ 2 + 2 * rate * margin)) := by
  have hgrowth := le_dot_weightsAfter hrate hchain hstep hgain
  have hsize := dot_self_weightsAfter_le hrate hchain hstep hmargin hnorm
  calc (u.dot theta + rate * moves.length * g) ^ 2
      ≤ u.dot (weightsAfter theta moves) ^ 2 := pow_le_pow_left₀ hstart hgrowth 2
    _ ≤ u.dot u * (weightsAfter theta moves).dot (weightsAfter theta moves) :=
        SparseVector.dot_sq_le u _
    _ ≤ _ := mul_le_mul_of_nonneg_left hsize (SparseVector.dot_self_nonneg u)

end Move

/-- Without decay the size of every step is the learning rate. -/
theorem Perceptron.stepSize_of_decay_eq_zero {p : Perceptron Rat} (hdecay : p.decay = 0)
    (updates : Nat) : p.stepSize updates = .ok p.learningRate := by
  have hsize : p.stepSize updates = .ok (p.learningRate / (1 + p.decay * updates)) := rfl
  rw [hsize, hdecay, zero_mul, add_zero, div_one]

namespace Learner

variable {l : Learner Rat} {p : Perceptron Rat} {state : Model Rat × Nat} {mv : Move Rat}

/-- A visit keeps the lexicon, and the weights for its entries. -/
theorem weighs_visit (item : Item) (h : ∀ e ∈ state.1.lexicon.entries, state.1.Weighs e) :
    ∀ e ∈ (l.visit state item).1.lexicon.entries, (l.visit state item).1.Weighs e := by
  cases hmove : l.move? state item with
  | none => rwa [visit_of_none hmove]
  | some mv =>
    obtain ⟨-, -, -, -, -, -, htheta⟩ := parts_of_move? hmove
    rw [visit_of_some hmove]
    intro e he f hf
    refine SparseVector.contains_addTimes ?_
    rw [htheta]
    exact h e he f hf

/-- The weights score the direction of each move at most by the margin, if there are weights for the
entries of the model and no token may be skipped. -/
theorem dot_delta_le_margin (hp : l.perceptron = some p)
    (hskips : l.analyzer.parser.config.skipsWords = false) (items : List Item)
    (hweighs : ∀ e ∈ state.1.lexicon.entries, state.1.Weighs e) :
    ∀ mv ∈ l.moves items state, mv.theta.dot mv.delta ≤ p.margin := by
  induction items generalizing state with
  | nil => simp [moves]
  | cons item items ih =>
    intro mv hmv
    rcases List.mem_append.1 hmv with hmv | hmv
    · obtain ⟨p', analysis, hp', hanalysis, hdirection, -, htheta⟩ :=
        parts_of_move? (Option.mem_toList.1 hmv)
      obtain rfl : p = p' := Option.some.inj (hp.symm.trans hp')
      rw [htheta]
      exact Perceptron.dot_direction_le
        (Analyzer.linear_of_analyze hskips hweighs hanalysis) hdirection
    · exact ih (weighs_visit item hweighs) mv hmv

/-- Without decay all moves have the size of the learning rate. -/
theorem step_eq_learningRate (hp : l.perceptron = some p) (hdecay : p.decay = 0)
    (items : List Item) : ∀ mv ∈ l.moves items state, mv.step = p.learningRate := by
  induction items generalizing state with
  | nil => simp [moves]
  | cons item items ih =>
    intro mv hmv
    rcases List.mem_append.1 hmv with hmv | hmv
    · obtain ⟨p', -, hp', -, -, hstep, -⟩ := parts_of_move? (Option.mem_toList.1 hmv)
      obtain rfl : p = p' := Option.some.inj (hp.symm.trans hp')
      rw [p.stepSize_of_decay_eq_zero hdecay] at hstep
      exact (Except.ok.inj hstep).symm
    · exact ih mv hmv

/-- The mistake bound. A run without learning entries visits the items of its schedule, all of them
or the first ones if it fails, and changes the weights by the moves of these items alone, one after
the other. If there are weights for the entries of the model and no token may be skipped, the
weights before each move score its direction at most by the margin. Without decay the moves are few,
if there is a vector that scores all directions by `g` or more. -/
theorem mistake_bound {s : Session Rat} (hp : l.perceptron = some p) (hrate : 0 ≤ p.learningRate)
    (hentries : l.config.learnsEntries = false)
    (hskips : l.analyzer.parser.config.skipsWords = false)
    (hweighs : ∀ e ∈ s.model.lexicon.entries, s.model.Weighs e) :
    ∃ visited moves, visited <+: l.schedule ∧
      ((l.train s).1 = .ok () → visited = l.schedule) ∧
      moves = l.moves visited s.learned ∧ Move.Chain s.model.theta moves ∧
      (l.train s).2.model = { s.model with theta := Move.weightsAfter s.model.theta moves } ∧
      (l.train s).2.updates = s.updates + moves.length ∧
      (∀ mv ∈ moves, mv.theta.dot mv.delta ≤ p.margin) ∧
      (p.decay = 0 → ∀ (u : SparseVector Rat) (g r : Rat), (∀ mv ∈ moves, g ≤ u.dot mv.delta) →
        (∀ mv ∈ moves, mv.delta.dot mv.delta ≤ r ^ 2) →
        0 ≤ u.dot s.model.theta + p.learningRate * moves.length * g →
        (u.dot s.model.theta + p.learningRate * moves.length * g) ^ 2 ≤
          u.dot u * (s.model.theta.dot s.model.theta +
            moves.length * (p.learningRate ^ 2 * r ^ 2 + 2 * p.learningRate * p.margin))) := by
  obtain ⟨visited, hprefix, hall, hlearned⟩ := visitsFrom_train hentries s
  rw [foldl_visit] at hlearned
  obtain ⟨hmodel, hupdates⟩ := Prod.mk.inj hlearned
  have hchain : Move.Chain s.model.theta _ := l.chain_moves visited s.learned
  have hmargin : ∀ mv ∈ l.moves visited s.learned, mv.theta.dot mv.delta ≤ p.margin :=
    dot_delta_le_margin hp hskips visited hweighs
  refine ⟨visited, _, hprefix, hall, rfl, hchain, hmodel, hupdates, hmargin, ?_⟩
  intro hdecay u g r hgain hnorm hstart
  exact Move.sq_count_le hrate hchain (step_eq_learningRate hp hdecay visited) hmargin hgain
    hnorm hstart

/-- An entry for the token `a` that means a truth value. -/
def truthEntry (b : Bool) : Entry := ⟨["a"], ⟨some (.primitive "N"), .bool b⟩, .fixed, []⟩

/-- A learner for the sentence `a`, which is to mean that something is true, in two epochs. -/
def truthLearner : Learner Rat where
  items := [⟨["a"], .none, .bool true, none, none⟩]
  analyzer := ⟨.create (.ofRules [] []) .default .structural .empty false, none⟩
  config := ⟨.int 2, .int 50, .int 100, false⟩
  perceptron := some ⟨1, 0, 0⟩
  observers := []
  timer := Meter.record

/-- A model that does not know yet which truth value `a` means. -/
def truthModel : Model Rat :=
  ⟨.ofList [truthEntry false, truthEntry true], [.default], [], [],
    .ofPairs [(["LEX", "a", "N : False"], 0), (["LEX", "a", "N : True"], 0)]⟩

/-- The weights that prefer that something is true. -/
def truthWeights : SparseVector Rat :=
  .ofPairs [(["LEX", "a", "N : False"], -1), (["LEX", "a", "N : True"], 1)]

/-- The two epochs make one move, which goes in the direction of these weights. -/
theorem mistake_bound_truth : ∃ moves,
    (truthLearner.train (truthLearner.start truthModel)).1 = .ok () ∧
    (truthLearner.train (truthLearner.start truthModel)).2.model.theta =
      Move.weightsAfter truthModel.theta moves ∧
    moves.map (fun mv => (mv.step, truthWeights.dot mv.delta, mv.delta.dot mv.delta)) =
      [(1, 2, 2)] ∧
    (∀ mv ∈ moves, mv.theta.dot mv.delta ≤ 0) ∧
    (truthWeights.dot truthModel.theta + 1 * moves.length * 2) ^ 2 ≤
      truthWeights.dot truthWeights * (truthModel.theta.dot truthModel.theta +
        moves.length * (1 ^ 2 * (3 / 2) ^ 2 + 2 * 1 * 0)) := by
  have hrun : (truthLearner.train (truthLearner.start truthModel)).1.toOption = some () := by
    decide +kernel
  have hok : (truthLearner.train (truthLearner.start truthModel)).1 = .ok () := by
    cases houtcome : (truthLearner.train (truthLearner.start truthModel)).1 with
    | error fault => simp [houtcome, Except.toOption] at hrun
    | ok u => rfl
  obtain ⟨visited, moves, -, hall, hmoves, -, hmodel, -, hmargin, hbound⟩ :=
    mistake_bound (l := truthLearner) (s := truthLearner.start truthModel) rfl (by decide)
      rfl rfl (by decide +kernel)
  obtain rfl := hall hok
  have hsizes : moves.map (fun mv => (mv.step, truthWeights.dot mv.delta, mv.delta.dot mv.delta)) =
      [(1, 2, 2)] := by
    rw [hmoves]
    decide +kernel
  have hsize : ∀ mv ∈ moves, truthWeights.dot mv.delta = 2 ∧ mv.delta.dot mv.delta = 2 := by
    intro mv hmv
    have hmem := List.mem_map_of_mem
      (f := fun mv => (mv.step, truthWeights.dot mv.delta, mv.delta.dot mv.delta)) hmv
    rw [hsizes, List.mem_singleton] at hmem
    exact ⟨congrArg (·.2.1) hmem, congrArg (·.2.2) hmem⟩
  have hstart : truthWeights.dot truthModel.theta = 0 := by decide +kernel
  refine ⟨moves, hok, congrArg Model.theta hmodel, hsizes, hmargin, ?_⟩
  refine hbound rfl truthWeights 2 (3 / 2) (fun mv hmv => (hsize mv hmv).1.ge) ?_ ?_
  · intro mv hmv
    rw [(hsize mv hmv).2]
    norm_num
  · change 0 ≤ truthWeights.dot truthModel.theta + 1 * moves.length * 2
    rw [hstart]
    positivity

end Learner

end Categorial
