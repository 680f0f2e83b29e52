import Categorial.Proofs.Learning.MistakeBound
import Categorial.Proofs.Parsing.Rescore

/-!
What a move of the weights does to scores, over rational numbers. Main statement: a move in the
direction found for the parses of an item changes neither which entries have weights nor the
features of any cell, and adds to the score of every cell what the direction scores of its features;
so the mean score of the good parses gains on that of the bad ones by the square of the direction,
which is not zero.
-/

namespace Categorial

/-- The mean of some scores. -/
def mean (xs : List Rat) : Rat := xs.sum / xs.length

/-- The mean score of a derivation with the weights of a model, over its best cells. -/
def Derivation.rescore (d : Derivation Rat) (m : Model Rat) : Except Fault Rat :=
  (d.best.mapM m.rescore).map mean

/-- The mean score of a derivation and the score of its execution with the weights of a model. -/
def JointParse.rescore (j : JointParse Rat) (m : Model Rat) : Except Fault Rat := do
  let base ← j.base.rescore m
  let execution ← m.scoreExecution j.outcome
  return base + execution

/-- The score of a parse with the weights of a model. -/
def Parse.rescore (m : Model Rat) : Parse Rat → Except Fault Rat
  | .derived d => d.rescore m
  | .joint j => j.rescore m

/-- The mean score of some parses with the weights of a model. -/
def Parse.meanScore (m : Model Rat) (qs : List (Parse Rat)) : Except Fault Rat :=
  (qs.mapM (Parse.rescore m)).map mean

section

variable {m m' : Model Rat} {delta : SparseVector Rat}

/-- Whether a score grows by the multiple of a direction's score of its features. -/
def Gains (step : Rat) (delta : SparseVector Rat) (score score' : Except Fault Rat)
    (features : Except Fault (SparseVector Rat)) : Prop :=
  ∃ y v, score = .ok y ∧ features = .ok v ∧ score' = .ok (y + step * delta.dot v)

/-- The mean of scores that grow along a direction grows with the mean of the features. -/
theorem gains_mean {α : Type} {score score' : α → Except Fault Rat}
    {features : α → Except Fault (SparseVector Rat)} {step : Rat} {as : List α} (hne : as ≠ [])
    (h : ∀ a ∈ as, Gains step delta (score a) (score' a) (features a)) :
    Gains step delta ((as.mapM score).map mean) ((as.mapM score').map mean)
      ((as.mapM features).map SparseVector.mean) := by
  -- Sums first: the means divide all of them by one length.
  have hall : ∃ ys vs ys', as.mapM score = .ok ys ∧ as.mapM features = .ok vs ∧
      as.mapM score' = .ok ys' ∧ ys.length = as.length ∧ vs.length = as.length ∧
      ys'.length = as.length ∧ ys'.sum = ys.sum + step * (vs.map delta.dot).sum := by
    clear hne
    induction as with
    | nil => exact ⟨[], [], [], rfl, rfl, rfl, rfl, rfl, rfl, by simp⟩
    | cons a as ih =>
      obtain ⟨hfirst, hrest⟩ := List.forall_mem_cons.1 h
      obtain ⟨y, v, hy, hv, hy'⟩ := hfirst
      obtain ⟨ys, vs, ys', hys, hvs, hys', hly, hlv, hly', hsum⟩ := ih hrest
      refine ⟨y :: ys, v :: vs, _ :: ys', mapM_cons_eq_ok.2 ⟨_, _, hy, hys, rfl⟩,
        mapM_cons_eq_ok.2 ⟨_, _, hv, hvs, rfl⟩, mapM_cons_eq_ok.2 ⟨_, _, hy', hys', rfl⟩,
        by simp [hly], by simp [hlv], by simp [hly'], ?_⟩
      rw [List.sum_cons, List.sum_cons, List.map_cons, List.sum_cons, hsum]
      ring
  obtain ⟨ys, vs, ys', hys, hvs, hys', hly, hlv, hly', hsum⟩ := hall
  have hvsne : vs ≠ [] := by
    rintro rfl
    exact hne (List.length_eq_zero_iff.1 hlv.symm)
  refine ⟨mean ys, .mean vs, by rw [hys]; rfl, by rw [hvs]; rfl, ?_⟩
  rw [hys', SparseVector.dot_mean delta hvsne]
  refine congrArg Except.ok ?_
  rw [mean, mean, hsum, hly, hly', hlv, add_div, mul_div_assoc]

variable (step : Rat)

theorem Derivation.gains_rescore (hkeys : delta.Within m.Known) {d : Derivation Rat}
    (h : ∀ c ∈ d.best, ∃ y, m.rescore c = .ok y) :
    Gains step delta (d.rescore m) (d.rescore (m.change (.moved step delta))) (d.features m) := by
  refine gains_mean d.best_ne_nil fun c hc => ?_
  obtain ⟨y, hy⟩ := h c hc
  obtain ⟨v, hv, hmoved⟩ := Model.exists_rescore_moved step hkeys hy
  exact ⟨y, v, hy, hv, hmoved⟩

theorem JointParse.gains_rescore {j : JointParse Rat}
    (hbase : Gains step delta (j.base.rescore m) (j.base.rescore (m.change (.moved step delta)))
      (j.base.features m))
    (hexecution : ∃ y, m.scoreExecution j.outcome = .ok y) :
    Gains step delta (j.rescore m) (j.rescore (m.change (.moved step delta))) (j.features m) := by
  obtain ⟨y, v, hy, hv, hy'⟩ := hbase
  obtain ⟨z, hz⟩ := hexecution
  obtain ⟨w, hw, hz'⟩ := Model.scoreExecution_moved step delta hz
  refine ⟨y + z, v.add w, by rw [rescore, hy, hz]; rfl, by rw [features, hv, hw]; rfl, ?_⟩
  rw [rescore, hy', hz', SparseVector.dot_add]
  refine congrArg Except.ok ?_
  ring

/-- The parses of an analysis have scores, which grow along a move. -/
theorem Analyzer.gains_rescore {a : Analyzer Rat} {tokens : List String} {state : Value}
    {options : ParseOptions} {analysis : Analysis Rat}
    (h : (a.analyze m tokens state options).result = .ok analysis) (hkeys : delta.Within m.Known)
    {q : Parse Rat} (hq : q ∈ analysis.parses) :
    Gains step delta (q.rescore m) (q.rescore (m.change (.moved step delta))) (q.features m) := by
  obtain ⟨hchart, ds, hds, hparses⟩ := parses_of_analyze h
  obtain ⟨t, ht⟩ := Parser.exists_sentence hchart
  have hcomplete := Parser.complete_of_chart ht (Or.inl hchart)
  obtain ⟨d, hd, hgives⟩ := (hparses q).1 hq
  have hderivation := d.gains_rescore step hkeys fun c hc => by
    obtain ⟨s, cs, hcs, hin⟩ := hcomplete.retained_of_mem hds hd (List.mem_filter.1 hc).1
    exact ⟨c.score, Model.rescore_of_chart hchart hcs hin⟩
  rw [Gives] at hgives
  split at hgives
  · rw [hgives]
    exact hderivation
  · obtain ⟨v, -, j, hj, rfl⟩ := hgives
    obtain ⟨score, hscore, rfl⟩ := JointParse.create_eq_ok hj
    exact JointParse.gains_rescore step hderivation ⟨score, hscore⟩

end

namespace Perceptron

variable {p : Perceptron Rat} {m : Model Rat} {item : Item} {parses : List (Parse Rat)}
  {delta : SparseVector Rat}

/-- Whether some parses are the good ones of an item, the best valid ones, and others the bad ones,
the invalid ones that are no more than the margin behind. -/
def Sides (p : Perceptron Rat) (item : Item) (parses goods bads : List (Parse Rat)) : Prop :=
  ∃ judged good others,
    (parses.mapM fun q => (item.isValid q.result).map fun valid => (q, valid)) = .ok judged ∧
    goods = Parse.top ((judged.filter (·.2)).map (·.1)) ∧ goods = good :: others ∧
    bads = (judged.filter fun q => !q.2 && good.score - p.margin ≤ q.1.score).map (·.1)

theorem Sides.good_mem {goods bads : List (Parse Rat)} (h : p.Sides item parses goods bads) :
    goods ⊆ parses := by
  obtain ⟨judged, good, others, hjudged, rfl, -, -⟩ := h
  intro q hq
  rw [← map_fst_of_judged hjudged]
  exact List.map_subset _ (List.filter_subset_self _) (Parse.mem_of_mem_top hq)

theorem Sides.bad_mem {goods bads : List (Parse Rat)} (h : p.Sides item parses goods bads) :
    bads ⊆ parses := by
  obtain ⟨judged, good, others, hjudged, -, -, rfl⟩ := h
  intro q hq
  rw [← map_fst_of_judged hjudged]
  exact List.map_subset _ (List.filter_subset_self _) hq

/-- A direction goes from the mean features of the bad parses to those of the good ones. -/
theorem exists_sides (h : p.direction? m item parses = .ok (some delta)) :
    ∃ goods bads towards away, p.Sides item parses goods bads ∧ goods ≠ [] ∧ bads ≠ [] ∧
      meanFeatures m goods = .ok towards ∧ meanFeatures m bads = .ok away ∧
      delta = (towards.sub away).dropZeros 0 ∧ delta.size ≠ 0 := by
  obtain ⟨judged, good, goods, bads, towards, away, hjudged, htop, hbads, hne, hrest⟩ :=
    parts_of_direction? h
  exact ⟨good :: goods, bads, towards, away, ⟨judged, good, goods, hjudged, htop.symm, rfl, hbads⟩,
    List.cons_ne_nil _ _, hne, hrest⟩

theorem within_meanFeatures {qs : List (Parse Rat)} {v : SparseVector Rat}
    (h : meanFeatures m qs = .ok v) : v.Within m.Known := by
  obtain ⟨vs, hvs, rfl⟩ := map_eq_ok.1 h
  refine SparseVector.within_mean fun u hu => ?_
  obtain ⟨q, -, hq⟩ := exists_of_mem_mapM hvs hu
  exact Parse.within_features hq

theorem within_direction (h : p.direction? m item parses = .ok (some delta)) :
    delta.Within m.Known := by
  obtain ⟨goods, bads, towards, away, -, -, -, htowards, haway, rfl, -⟩ := exists_sides h
  exact ((within_meanFeatures htowards).sub (within_meanFeatures haway)).dropZeros 0

theorem dot_direction_pos (h : p.direction? m item parses = .ok (some delta)) :
    0 < delta.dot delta := by
  obtain ⟨goods, bads, towards, away, -, -, -, -, -, hdelta, hsize⟩ := exists_sides h
  obtain ⟨key, hkey⟩ := List.exists_mem_of_length_pos (Nat.pos_of_ne_zero hsize)
  have hcontains := SparseVector.contains_of_mem hkey
  rw [hdelta] at hcontains ⊢
  exact SparseVector.dot_self_pos (SparseVector.get_ne_zero_of_dropZeros hcontains)

/-- A move in the direction found for the parses of an item leaves the weighed entries and all
features as they are, and adds to the score of every cell what the direction scores of its features;
cells that a parse retains have such scores. The mean score of the good parses, over their best
cells and with their executions, gains on that of the bad parses by the step times the square of the
direction, which is more than nothing. -/
theorem move_gains {a : Analyzer Rat} {tokens : List String} {state : Value}
    {options : ParseOptions} {analysis : Analysis Rat} {step : Rat}
    (hanalysis : (a.analyze m tokens state options).result = .ok analysis)
    (hdelta : p.direction? m item analysis.parses = .ok (some delta)) (hstep : 0 < step) :
    (∀ (f : LexicalFeatures) (e : Entry), (m.change (.moved step delta)).theta.contains (f.key e) =
      m.theta.contains (f.key e)) ∧
    (∀ c, (m.change (.moved step delta)).cellFeatures c = m.cellFeatures c) ∧
    (∀ v, (m.change (.moved step delta)).executionFeatures v = m.executionFeatures v) ∧
    (∀ c y, m.rescore c = .ok y → ∃ v, m.cellFeatures c = .ok v ∧
      (m.change (.moved step delta)).rescore c = .ok (y + step * delta.dot v)) ∧
    (∀ (parser : Parser Rat) tokens options chart,
      (parser.chart m tokens options).result = .ok chart →
        ∀ s cs, chart.cells s = .ok cs → ∀ c ∈ cs, m.rescore c = .ok c.score) ∧
    ∃ goods bads x y x' y', p.Sides item analysis.parses goods bads ∧
      Parse.meanScore m goods = .ok x ∧ Parse.meanScore m bads = .ok y ∧
      Parse.meanScore (m.change (.moved step delta)) goods = .ok x' ∧
      Parse.meanScore (m.change (.moved step delta)) bads = .ok y' ∧
      x' - y' = x - y + step * delta.dot delta ∧ 0 < step * delta.dot delta := by
  have hkeys := within_direction hdelta
  refine ⟨Model.contains_key_moved step hkeys, fun c => Model.featuresFrom_moved step hkeys _ _,
    fun v => rfl, fun c y hy => Model.exists_rescore_moved step hkeys hy, ?_, ?_⟩
  · intro parser tokens options chart hchart s cs hcs c hc
    exact Model.rescore_of_chart hchart hcs hc
  · obtain ⟨goods, bads, towards, away, hsides, hgoods, hbads, htowards, haway, heq, -⟩ :=
      exists_sides hdelta
    obtain ⟨x, v, hx, hv, hx'⟩ := gains_mean hgoods fun q hq =>
      Analyzer.gains_rescore step hanalysis hkeys (hsides.good_mem hq)
    obtain ⟨y, w, hy, hw, hy'⟩ := gains_mean hbads fun q hq =>
      Analyzer.gains_rescore step hanalysis hkeys (hsides.bad_mem hq)
    obtain rfl : towards = v := Except.ok.inj (htowards.symm.trans hv)
    obtain rfl : away = w := Except.ok.inj (haway.symm.trans hw)
    refine ⟨goods, bads, x, y, _, _, hsides, hx, hy, hx', hy', ?_,
      mul_pos hstep (dot_direction_pos hdelta)⟩
    -- The direction is the difference of the means but for zeros, which score nothing.
    have hdot : delta.dot delta = delta.dot towards - delta.dot away := by
      conv_lhs => rw [heq]
      rw [SparseVector.dot_dropZeros, ← heq, SparseVector.dot_sub]
    rw [hdot]
    ring

/-- An analyzer for the sentence `a`, which finds one thing that is true and nothing that is not. -/
def findingAnalyzer : Analyzer Rat :=
  { Learner.truthLearner.analyzer with
    executor := some fun meaning _ =>
      pure (if meaning.same (.bool true) then .int 1 else .list []) }

/-- A model that prefers to find nothing. -/
def findingModel : Model Rat :=
  { Learner.truthModel with
    executions := [.emptyResult "EXEC" (.ok 3)]
    theta := .ofPairs [(["LEX", "a", "N : False"], 0), (["LEX", "a", "N : True"], 0),
      (["EXEC", "EMPTY_RESULT"], 1)] }

/-- The sentence `a`, for which something is to be found. -/
def findingItem : Item := ⟨["a"], .none, .tuple [.bool true, .int 1], none, none⟩

/-- Half a step in the direction of the true entry, and away from the other one and from empty
results. -/
theorem move_gains_finding : ∃ analysis delta goods bads x y,
    (findingAnalyzer.analyze findingModel ["a"] .none .plain).result = .ok analysis ∧
    (⟨1, 0, 0⟩ : Perceptron Rat).direction? findingModel findingItem analysis.parses =
      .ok (some delta) ∧
    (0 : Rat) < 1 / 2 ∧ delta.dot delta = 11 ∧
    (⟨1, 0, 0⟩ : Perceptron Rat).Sides findingItem analysis.parses goods bads ∧
    Parse.meanScore (findingModel.change (.moved (1 / 2) delta)) goods = .ok x ∧
    Parse.meanScore (findingModel.change (.moved (1 / 2) delta)) bads = .ok y ∧
    ∃ x₀ y₀, Parse.meanScore findingModel goods = .ok x₀ ∧
      Parse.meanScore findingModel bads = .ok y₀ ∧ x - y = x₀ - y₀ + 11 / 2 := by
  have hcheck : ((findingAnalyzer.analyze findingModel ["a"] .none .plain).result.bind
      fun analysis => ((⟨1, 0, 0⟩ : Perceptron Rat).direction? findingModel findingItem
        analysis.parses).map fun direction => direction.map fun delta => delta.dot delta).toOption =
      some (some 11) := by decide +kernel
  cases hanalysis : (findingAnalyzer.analyze findingModel ["a"] .none .plain).result with
  | error fault => simp [hanalysis, Except.bind, Except.toOption] at hcheck
  | ok analysis =>
    rw [hanalysis, Except.bind] at hcheck
    cases hdirection : (⟨1, 0, 0⟩ : Perceptron Rat).direction? findingModel findingItem
        analysis.parses with
    | error fault => simp [hdirection, Except.map, Except.toOption] at hcheck
    | ok direction =>
      obtain ⟨delta, rfl⟩ : ∃ delta, direction = some delta := by
        cases direction with
        | none => simp [hdirection, Except.map, Except.toOption] at hcheck
        | some delta => exact ⟨delta, rfl⟩
      have hdot : delta.dot delta = 11 := by
        simpa [hdirection, Except.map, Except.toOption] using hcheck
      have hstep : (0 : Rat) < 1 / 2 := by norm_num
      obtain ⟨-, -, -, -, -, goods, bads, x₀, y₀, x, y, hsides, hx₀, hy₀, hx, hy, hgain, -⟩ :=
        move_gains hanalysis hdirection hstep
      refine ⟨analysis, delta, goods, bads, x, y, rfl, hdirection, hstep, hdot, hsides, hx, hy, x₀,
        y₀, hx₀, hy₀, ?_⟩
      rw [hgain, hdot]
      norm_num

end Perceptron

end Categorial
