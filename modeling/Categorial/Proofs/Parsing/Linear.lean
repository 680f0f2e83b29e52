import Categorial.Parsing.JointParse
import Categorial.Proofs.Chart.Features
import Categorial.Proofs.Model.Scores
import Categorial.Proofs.Parsing.Outcome

/-!
Linear scores. The score of a derivation is found from the entries up, and its features are found by
a walk from the last step down. Main statement: over rational numbers the score of every retained
cell is the inner product of the weights with its features, plus the start scores of its entries for
the feature sets that have no weight for them; the score of a parse is the inner product of the
weights with its features if there are weights for all its entries.
-/

namespace Categorial

namespace Sentence

variable {t : Sentence Rat}

/-- What a walk over a derivation adds is explained by its score, up to the start scores of its
entries. -/
theorem Derives.linear {c : Cell Rat} (h : t.Derives c) : ∃ x,
    Scalar.total (t.model.startScores c.entries) = .ok x ∧ ∀ acc, ∃ v,
      t.model.featuresFrom [c] acc = .ok v ∧
        t.model.theta.dot v + x = t.model.theta.dot acc + c.score := by
  induction h with
  | entry _ _ _ hscore =>
    obtain ⟨x, hx, heq⟩ := Model.scoreEntry_eq hscore
    rw [leaf, Cell.entries_lexical]
    refine ⟨x, hx, fun acc => ⟨_, Model.featuresFrom_lexical .., ?_⟩⟩
    rw [SparseVector.dot_addTimes, Cell.score, heq]
    ring
  | pair _ _ _ _ _ hscore ihl ihr =>
    obtain ⟨y, hy, hsum⟩ := (scoreNode_eq_ok Scalar.exact_rat).1 hscore
    obtain ⟨fs, hfs, hdot⟩ := Model.scoreRule_eq hy
    obtain ⟨xl, hxl, hl⟩ := ihl
    obtain ⟨xr, hxr, hr⟩ := ihr
    rw [node, Cell.entries_pair, Model.startScores_append]
    refine ⟨xl + xr, Scalar.exact_rat.total_append hxl hxr, fun acc => ?_⟩
    obtain ⟨v, hv, hvdot⟩ := hr (acc.addTimes 1 fs)
    obtain ⟨w, hw, hwdot⟩ := hl v
    refine ⟨w, ?_, ?_⟩
    · rw [Model.featuresFrom_pair _ _ _ _ _ _ _ _ _ hfs, hv]
      exact hw
    · rw [SparseVector.dot_addTimes, hdot] at hvdot
      rw [Cell.score, hsum, Scalar.sum_rat, List.sum_pair]
      linarith
  | shift _ _ _ _ hscore ih =>
    obtain ⟨y, hy, hsum⟩ := (scoreNode_eq_ok Scalar.exact_rat).1 hscore
    obtain ⟨fs, hfs, hdot⟩ := Model.scoreRule_eq hy
    obtain ⟨x, hx, hchild⟩ := ih
    rw [node, Cell.entries_single]
    refine ⟨x, hx, fun acc => ?_⟩
    obtain ⟨v, hv, hvdot⟩ := hchild (acc.addTimes 1 fs)
    refine ⟨v, ?_, ?_⟩
    · rw [Model.featuresFrom_single _ _ _ _ _ _ _ _ hfs]
      exact hv
    · rw [SparseVector.dot_addTimes, hdot] at hvdot
      rw [Cell.score, hsum, Scalar.sum_rat, List.sum_singleton]
      linarith

end Sentence

/-- The features of some steps, each of which explains the score of its step. -/
theorem SparseVector.exists_mapM {α : Type} {theta : SparseVector Rat}
    {features : α → Except Fault (SparseVector Rat)} {score : α → Rat} {as : List α}
    (h : ∀ a ∈ as, ∃ v, features a = .ok v ∧ score a = theta.dot v) :
    ∃ vs, as.mapM features = .ok vs ∧ (as ≠ [] → vs ≠ []) ∧
      ∀ v ∈ vs, ∃ a ∈ as, score a = theta.dot v := by
  induction as with
  | nil => exact ⟨[], rfl, fun hne => absurd rfl hne, by simp⟩
  | cons a as ih =>
    obtain ⟨v, hv, hdot⟩ := h a List.mem_cons_self
    obtain ⟨vs, hvs, -, hall⟩ := ih fun a ha => h a (List.mem_cons_of_mem _ ha)
    refine ⟨v :: vs, mapM_cons_eq_ok.2 ⟨_, _, hv, hvs, rfl⟩, by simp, ?_⟩
    intro w hw
    rcases List.mem_cons.1 hw with rfl | hw
    · exact ⟨a, List.mem_cons_self, hdot⟩
    · obtain ⟨b, hb, hdot⟩ := hall w hw
      exact ⟨b, List.mem_cons_of_mem _ hb, hdot⟩

/-- A derivation has best cells. -/
theorem Derivation.best_ne_nil (d : Derivation Rat) : d.best ≠ [] :=
  Sentence.best_ne_nil_of_defined fun c _ => defined_rat c.score

/-- The features of a parse are the mean of those of its best cells, which all have its score. -/
theorem Derivation.features_eq {m : Model Rat} {d : Derivation Rat}
    (h : ∀ c ∈ d.best, ∃ v, m.cellFeatures c = .ok v ∧ c.score = m.theta.dot v) :
    ∃ v, d.features m = .ok v ∧ d.score = m.theta.dot v := by
  have hscore : ∀ c ∈ d.best, c.score = d.score := by
    intro c hc
    exact beq_iff_eq.1 (List.mem_filter.1 hc).2
  obtain ⟨vs, hvs, hne, hall⟩ := SparseVector.exists_mapM h
  refine ⟨.mean vs, by rw [features, hvs]; rfl, ?_⟩
  refine (SparseVector.dot_mean_of_forall_eq (hne d.best_ne_nil) fun v hv => ?_).symm
  obtain ⟨c, hc, hdot⟩ := hall v hv
  rw [← hdot, hscore c hc]

/-- Executing a derivation adds the features of the execution, and its score. -/
theorem JointParse.features_eq {m : Model Rat} {d : Derivation Rat} {outcome : Value}
    {j : JointParse Rat} (hj : create m d outcome = .ok j)
    (hd : ∃ v, d.features m = .ok v ∧ d.score = m.theta.dot v) :
    ∃ v, j.features m = .ok v ∧ j.score = m.theta.dot v := by
  obtain ⟨v, hv, hdot⟩ := hd
  rw [create] at hj
  obtain ⟨y, hscore, hj⟩ := bind_eq_ok.1 hj
  obtain ⟨-, -, hj⟩ := bind_eq_ok.1 hj
  obtain rfl := Except.ok.inj hj
  obtain ⟨w, hw, hwdot⟩ := Model.scoreExecution_eq hscore
  refine ⟨v.add w, ?_, ?_⟩
  · rw [features, hv, hw]
    rfl
  · rw [SparseVector.dot_add, ← hdot, hwdot, score]

namespace Sentence

variable {t : Sentence Rat} {chart : Chart Rat}

/-- The score of a retained cell is made of its features and of the start scores of its entries. -/
theorem Complete.score_cell (h : t.Complete chart) {s : Span} {cs : List (Cell Rat)}
    (hcs : chart.cells s = .ok cs) {c : Cell Rat} (hc : c ∈ cs) : ∃ v x,
    t.model.cellFeatures c = .ok v ∧ Scalar.total (t.model.startScores c.entries) = .ok x ∧
      c.score = t.model.theta.dot v + x := by
  obtain ⟨x, hx, hwalk⟩ := (h.derives hcs hc).1.linear
  obtain ⟨v, hv, hdot⟩ := hwalk .empty
  rw [SparseVector.dot_empty, zero_add] at hdot
  exact ⟨v, x, hv, hx, hdot.symm⟩

/-- Without start scores the score of a retained cell is explained by its features. -/
theorem Complete.score_weighed (h : t.Complete chart) {s : Span} {cs : List (Cell Rat)}
    (hcs : chart.cells s = .ok cs) {c : Cell Rat} (hc : c ∈ cs)
    (hweighs : ∀ e ∈ c.entries, t.model.Weighs e) :
    ∃ v, t.model.cellFeatures c = .ok v ∧ c.score = t.model.theta.dot v := by
  obtain ⟨v, x, hv, hx, hscore⟩ := h.score_cell hcs hc
  rw [Model.startScores_eq_nil hweighs] at hx
  obtain rfl : 0 = x := Except.ok.inj hx
  exact ⟨v, hv, hscore.trans (add_zero _)⟩

/-- The cells of a derivation of the whole sentence are retained. -/
theorem Complete.retained_of_mem (h : t.Complete chart) {ds : List (Derivation Rat)}
    (hds : Derivation.ofChart chart = .ok ds) {d : Derivation Rat} (hd : d ∈ ds) {c : Cell Rat}
    (hc : c ∈ d.cells) : ∃ s cs, chart.cells s = .ok cs ∧ c ∈ cs := by
  obtain ⟨cs, ds', hcs, hds', hgroups, -⟩ := h.ofChart_eq
  obtain rfl := Except.ok.inj (hds.symm.trans hds')
  exact ⟨_, ((h.mem_fullParses hcs).1 (hgroups.mem_iff.2 ⟨d, hd, hc⟩)).2⟩

/-- The score of a derivation of the whole sentence is explained by its features, if there are
weights for the entries of its best cells. -/
theorem Complete.score_derivation (h : t.Complete chart) {ds : List (Derivation Rat)}
    (hds : Derivation.ofChart chart = .ok ds) {d : Derivation Rat} (hd : d ∈ ds)
    (hweighs : ∀ c ∈ d.best, ∀ e ∈ c.entries, t.model.Weighs e) :
    ∃ v, d.features t.model = .ok v ∧ d.score = t.model.theta.dot v := by
  refine Derivation.features_eq fun c hc => ?_
  obtain ⟨s, cs, hcs, hin⟩ := h.retained_of_mem hds hd (List.mem_filter.1 hc).1
  exact h.score_weighed hcs hin (hweighs c hc)

/-- After a parse, with its spans of one length in any order, the score of every retained cell is
the inner product of the weights with its features, plus the start scores of its entries for the
feature sets that have no weight for them. If there are weights for the entries of the best cells of
a derivation of the whole sentence, its score is the inner product of the weights with its features,
and so is the score of any execution of it. -/
theorem linear_scores {p : Parser Rat} {m : Model Rat} {tokens : List String}
    {options : ParseOptions} (ht : p.sentence m tokens options = .ok t)
    (hchart : (p.chart m tokens options).result = .ok chart ∨ t.Reaches chart) :
    (∀ s cs, chart.cells s = .ok cs → ∀ c ∈ cs, ∃ v x, m.cellFeatures c = .ok v ∧
      Scalar.total (m.startScores c.entries) = .ok x ∧ c.score = m.theta.dot v + x) ∧
    ∃ ds, Derivation.ofChart chart = .ok ds ∧
      ∀ d ∈ ds, (∀ c ∈ d.best, ∀ e ∈ c.entries, m.Weighs e) →
        (∃ v, d.features m = .ok v ∧ d.score = m.theta.dot v) ∧
        ∀ outcome j, JointParse.create m d outcome = .ok j →
          ∃ v, j.features m = .ok v ∧ j.score = m.theta.dot v := by
  have hcomplete := Parser.complete_of_chart ht hchart
  obtain ⟨-, rfl, -⟩ := Parser.parts_of_sentence ht
  refine ⟨fun s cs hcs c hc => hcomplete.score_cell hcs hc, ?_⟩
  obtain ⟨cs, ds, -, hds, -⟩ := hcomplete.ofChart_eq
  refine ⟨ds, hds, ?_⟩
  intro d hd hweighs
  have hlinear := hcomplete.score_derivation hds hd hweighs
  exact ⟨hlinear, fun outcome j hj => JointParse.features_eq hj hlinear⟩

/-- An entry for the token `a`. -/
def nounEntry : Entry := ⟨["a"], ⟨some (.primitive "N"), .none⟩, .fixed, []⟩

/-- A model with a weight for this entry, for a rule that keeps the first of two categories, and for
executions with empty results. -/
def weighedModel : Model Rat :=
  ⟨.ofList [nounEntry], [.default], [.usage "RULE" (.ok (1 / 2))], [.emptyResult "EXEC" (.ok 3)],
    .ofPairs [(["LEX", "a", "N"], 2), (["RULE", ">keep"], 4), (["EXEC", "EMPTY_RESULT"], 5)]⟩

/-- Two entries, a rule and an execution with an empty result are scored by their features. -/
theorem linear_scores_executed : ∃ t chart ds d j v,
    keepParser.sentence weighedModel ["a", "a"] .plain = .ok t ∧
    (keepParser.chart weighedModel ["a", "a"] .plain).result = .ok chart ∧
    Derivation.ofChart chart = .ok ds ∧ d ∈ ds ∧
    (∀ c ∈ d.best, ∀ e ∈ c.entries, weighedModel.Weighs e) ∧
    JointParse.create weighedModel d (.list []) = .ok j ∧ j.score = 21 ∧
    j.features weighedModel = .ok v ∧ j.score = weighedModel.theta.dot v := by
  have hcheck : ((keepParser.chart weighedModel ["a", "a"] .plain).result.bind fun chart =>
      (Derivation.ofChart chart).map fun ds => ds.map fun d =>
        (decide (∀ c ∈ d.best, ∀ e ∈ c.entries, weighedModel.Weighs e),
          ((JointParse.create weighedModel d (.list [])).map JointParse.score).toOption)).toOption =
      some [(true, some 21)] := by decide +kernel
  cases hchart : (keepParser.chart weighedModel ["a", "a"] .plain).result with
  | error fault => simp [hchart, Except.bind, Except.toOption] at hcheck
  | ok chart =>
    obtain ⟨t, ht⟩ := Parser.exists_sentence hchart
    obtain ⟨-, ds, hds, hlinear⟩ := linear_scores ht (Or.inl hchart)
    simp only [hchart, hds, Except.bind, Except.map, Except.toOption, Option.some.injEq,
      List.map_eq_singleton_iff, Prod.mk.injEq, decide_eq_true_eq] at hcheck
    obtain ⟨d, rfl, hweighs, hjoint⟩ := hcheck
    cases hj : JointParse.create weighedModel d (.list []) with
    | error fault => simp [hj] at hjoint
    | ok j =>
      obtain ⟨-, hexecuted⟩ := hlinear d List.mem_cons_self hweighs
      obtain ⟨v, hv, hdot⟩ := hexecuted (.list []) j hj
      rw [hj, Option.some.injEq] at hjoint
      exact ⟨t, chart, [d], d, j, v, ht, rfl, hds, List.mem_cons_self, hweighs, hj, hjoint, hv,
        hdot⟩

end Sentence

end Categorial
