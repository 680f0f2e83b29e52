import Categorial.Proofs.Model.Changes
import Categorial.Proofs.Model.Support
import Categorial.Proofs.Parsing.Linear

/-!
Scores that are found anew after the weights moved, over rational numbers. Main statements: cells
that a parse retains have the scores that are found anew with the same weights; a move along
features leaves the features of every cell as they are, and adds to its score the inner product of
the move with its features.
-/

namespace Categorial

namespace Model

variable {K : Type} [Scalar K]

mutual

/-- The score of a cell with the weights of a model, found from the entries up as a parse does. -/
def rescore (m : Model K) : Cell K → Except Fault K
  | .lexical e _ _ _ _ => m.scoreEntry e
  | .derived _ rule children _ _ _ _ => do
    let childScore ← Scalar.total (m.rescores children)
    let ruleScore ← m.scoreRule rule
    Scalar.plus childScore ruleScore

/-- The scores of some cells with the weights of a model. -/
def rescores (m : Model K) : List (Cell K) → List (Except Fault K)
  | [] => []
  | c :: cs => m.rescore c :: m.rescores cs

end

/-- The cells of a derivation have the scores that are found anew. -/
theorem rescore_of_derives {t : Sentence K} {c : Cell K} (h : t.Derives c) :
    t.model.rescore c = .ok c.score := by
  induction h with
  | entry _ _ _ hscore => rw [Sentence.leaf, rescore, hscore, Cell.score]
  | pair _ _ _ _ _ hscore ihl ihr =>
    rw [Sentence.node, rescore, rescores, rescores, rescores, ihl, ihr, Cell.score, ← hscore]
    rfl
  | shift _ _ _ _ hscore ih =>
    rw [Sentence.node, rescore, rescores, rescores, ih, Cell.score, ← hscore]
    rfl

/-- The cells that a parse retains have the scores that are found anew. -/
theorem rescore_of_chart {p : Parser K} {m : Model K} {tokens : List String}
    {options : ParseOptions} {chart : Chart K} (h : (p.chart m tokens options).result = .ok chart)
    {s : Span} {cs : List (Cell K)} (hcs : chart.cells s = .ok cs) {c : Cell K} (hc : c ∈ cs) :
    m.rescore c = .ok c.score := by
  obtain ⟨t, ht⟩ := Parser.exists_sentence h
  obtain ⟨-, rfl, -⟩ := Parser.parts_of_sentence ht
  exact rescore_of_derives ((Parser.complete_of_chart ht (Or.inl h)).derives hcs hc).1

/-! What a move leaves as it is. -/

section

variable {m : Model K} {delta : SparseVector K} (step : K)

/-- A move along features gives no entry a weight that had none. -/
theorem contains_key_moved (h : delta.Within m.Known) (f : LexicalFeatures) (e : Entry) :
    (m.change (.moved step delta)).theta.contains (f.key e) = m.theta.contains (f.key e) := by
  rw [Bool.eq_iff_iff]
  refine ⟨fun hnew => ?_, contains_change (.moved step delta)⟩
  rcases SparseVector.contains_addTimes_iff.1 hnew with hold | hmoved
  · exact hold
  -- The keys of entries have three parts, so they are none of those of rules and executions.
  · exact (h _ hmoved).resolve_right (by simp [LexicalFeatures.key])

theorem entryFeatures_moved (h : delta.Within m.Known) (e : Entry) :
    (m.change (.moved step delta)).entryFeatures e = m.entryFeatures e := by
  rw [entryFeatures, entryFeatures]
  refine congrArg _ (List.map_congr_left fun f _ => ?_)
  rw [LexicalFeatures.compute, LexicalFeatures.compute, contains_key_moved step h]

theorem featuresFrom_moved (h : delta.Within m.Known) (cells : List (Cell K))
    (acc : SparseVector K) :
    (m.change (.moved step delta)).featuresFrom cells acc = m.featuresFrom cells acc := by
  induction cells, acc using featuresFrom.induct m with
  | case1 acc => rw [featuresFrom, featuresFrom]
  | case2 e s score full mark rest acc ih =>
    rw [featuresFrom, featuresFrom, entryFeatures_moved step h, ih]
  | case3 category rule children s score full mark rest acc fault hfault =>
    have hrule : (m.change (.moved step delta)).ruleFeatures rule = .error fault := hfault
    rw [featuresFrom, featuresFrom, hrule, hfault]
  | case4 category rule children s score full mark rest acc features hfeatures ih =>
    have hrule : (m.change (.moved step delta)).ruleFeatures rule = .ok features := hfeatures
    rw [List.unattach_reverse, List.unattach_attach] at ih
    rw [featuresFrom, featuresFrom, hrule, hfeatures]
    exact ih

end

/-! What a move adds to scores. -/

section

open Scalar (total exact_rat)

variable {m : Model Rat} {delta : SparseVector Rat} (step : Rat)

theorem dot_moved (v : SparseVector Rat) :
    (m.change (.moved step delta)).theta.dot v = m.theta.dot v + step * delta.dot v := by
  rw [change, SparseVector.dot_comm, SparseVector.dot_addTimes, SparseVector.dot_comm v,
    SparseVector.dot_comm v]

/-- Where features add up, the weights score their sum. -/
theorem total_of_totalVector (theta : SparseVector Rat)
    {vs : List (Except Fault (SparseVector Rat))} {v : SparseVector Rat}
    (h : totalVector vs = .ok v) :
    total (vs.map (Except.map theta.dot)) = .ok (theta.dot v) := by
  obtain ⟨us, hus, rfl⟩ := map_eq_ok.1 h
  clear h
  rw [SparseVector.dot_sum]
  replace hus := mapM_eq_ok.1 hus
  induction hus with
  | nil => rfl
  | @cons x u vs us hx _ ih =>
    obtain rfl : x = .ok u := hx
    rw [List.map_cons, List.map_cons, List.sum_cons, exact_rat.total_cons_eq_ok]
    exact ⟨_, _, rfl, ih, rfl⟩

/-- A sum of scores of features grows by what the move scores. -/
theorem total_moved (delta : SparseVector Rat) {vs : List (Except Fault (SparseVector Rat))}
    {y : Rat} (h : total (vs.map (Except.map m.theta.dot)) = .ok y) : ∃ v, totalVector vs = .ok v ∧
      total (vs.map (Except.map (m.change (.moved step delta)).theta.dot)) =
        .ok (y + step * delta.dot v) := by
  obtain ⟨v, hv, rfl⟩ := totalVector_of_total h
  exact ⟨v, hv, by rw [total_of_totalVector _ hv, dot_moved]⟩

theorem scoreRule_moved (delta : SparseVector Rat) {rule : RuleName} {y : Rat}
    (h : m.scoreRule rule = .ok y) :
    ∃ v, m.ruleFeatures rule = .ok v ∧
      (m.change (.moved step delta)).scoreRule rule = .ok (y + step * delta.dot v) := by
  have hmap : ∀ theta : SparseVector Rat, (m.rules.map fun f => f.score rule theta) =
      (m.rules.map fun f => f.compute rule).map (Except.map theta.dot) :=
    fun theta => (List.map_map ..).symm
  rw [scoreRule, hmap] at h
  obtain ⟨v, hv, hmoved⟩ := total_moved step delta h
  exact ⟨v, hv, by rw [scoreRule, ← hmoved, ← hmap]; rfl⟩

theorem scoreExecution_moved (delta : SparseVector Rat) {result : Value} {y : Rat}
    (h : m.scoreExecution result = .ok y) :
    ∃ v, m.executionFeatures result = .ok v ∧
      (m.change (.moved step delta)).scoreExecution result = .ok (y + step * delta.dot v) := by
  have hmap : ∀ theta : SparseVector Rat, (m.executions.map fun f => f.score result theta) =
      (m.executions.map fun f => f.compute result).map (Except.map theta.dot) :=
    fun theta => (List.map_map ..).symm
  rw [scoreExecution, hmap] at h
  obtain ⟨v, hv, hmoved⟩ := total_moved step delta h
  exact ⟨v, hv, by rw [scoreExecution, ← hmoved, ← hmap]; rfl⟩

/-- A feature set with a weight for an entry moves with it, and one without keeps its start
score. -/
theorem score_moved (h : delta.Within m.Known) {f : LexicalFeatures} {e : Entry} {y : Rat}
    (hy : f.score e m.theta = .ok y) : f.score e (m.change (.moved step delta)).theta =
      .ok (y + step * delta.dot (f.compute e m.theta)) := by
  have hcontains := contains_key_moved step h f e
  cases hold : m.theta.contains (f.key e) with
  | true =>
    rw [score_of_contains hold, Except.ok.injEq] at hy
    rw [score_of_contains (hcontains.trans hold), ← hy, dot_moved, LexicalFeatures.compute,
      LexicalFeatures.compute, hcontains]
  | false =>
    obtain ⟨hstart, -⟩ := score_of_not_contains hold
    obtain ⟨hstart', -⟩ := score_of_not_contains (hcontains.trans hold)
    rw [hstart', ← hstart, hy, LexicalFeatures.compute, hold, if_neg Bool.false_ne_true,
      SparseVector.dot_empty, mul_zero, add_zero]

theorem scoreEntry_moved (h : delta.Within m.Known) {e : Entry} {y : Rat}
    (hy : m.scoreEntry e = .ok y) : (m.change (.moved step delta)).scoreEntry e =
      .ok (y + step * delta.dot (m.entryFeatures e)) := by
  have hlexical : (m.change (.moved step delta)).lexical = m.lexical := rfl
  rw [scoreEntry] at hy ⊢
  rw [entryFeatures, SparseVector.dot_sum, List.map_map, hlexical]
  generalize m.lexical = fs at hy ⊢
  induction fs generalizing y with
  | nil =>
    obtain rfl : 0 = y := Except.ok.inj hy
    rw [List.map_nil, List.map_nil, List.sum_nil, mul_zero, add_zero]
    rfl
  | cons f fs ih =>
    rw [List.map_cons, exact_rat.total_cons_eq_ok] at hy
    obtain ⟨a, b, ha, hb, rfl⟩ := hy
    rw [List.map_cons, exact_rat.total_cons_eq_ok]
    refine ⟨_, _, score_moved step h ha, ih hb, ?_⟩
    rw [List.map_cons, List.sum_cons, Function.comp_apply]
    ring

mutual

/-- What a walk over a derivation adds explains by how much its score grows. -/
theorem rescore_moved (h : delta.Within m.Known) : ∀ (c : Cell Rat) {y : Rat},
    m.rescore c = .ok y → ∃ z, (m.change (.moved step delta)).rescore c = .ok (y + step * z) ∧
      ∀ acc, ∃ v, m.featuresFrom [c] acc = .ok v ∧ delta.dot v = delta.dot acc + z
  | .lexical e s score full mark, y, hy => by
    rw [rescore] at hy
    refine ⟨_, by rw [rescore]; exact scoreEntry_moved step h hy, fun acc => ?_⟩
    refine ⟨_, featuresFrom_lexical .., ?_⟩
    rw [SparseVector.dot_addTimes]
    exact congrArg (delta.dot acc + ·) (one_mul _)
  | .derived category rule children s score full mark, y, hy => by
    rw [rescore] at hy
    obtain ⟨a, ha, hy⟩ := bind_eq_ok.1 hy
    obtain ⟨b, hb, hy⟩ := bind_eq_ok.1 hy
    obtain rfl : a + b = y := Except.ok.inj hy
    obtain ⟨z, hz, hwalk⟩ := rescores_moved h children ha
    obtain ⟨features, hfeatures, hrule⟩ := scoreRule_moved step delta hb
    refine ⟨z + delta.dot features, ?_, fun acc => ?_⟩
    · rw [rescore, hz, hrule]
      refine congrArg Except.ok ?_
      ring
    · obtain ⟨v, hv, hdot⟩ := hwalk (acc.addTimes 1 features)
      refine ⟨v, ?_, ?_⟩
      · rw [featuresFrom, hfeatures, List.append_nil]
        exact hv
      · rw [hdot, SparseVector.dot_addTimes]
        exact add_right_comm _ _ _ |>.trans (by rw [one_mul, add_assoc])

theorem rescores_moved (h : delta.Within m.Known) : ∀ (cs : List (Cell Rat)) {y : Rat},
    total (m.rescores cs) = .ok y →
      ∃ z, total ((m.change (.moved step delta)).rescores cs) = .ok (y + step * z) ∧
        ∀ acc, ∃ v, m.featuresFrom cs.reverse acc = .ok v ∧ delta.dot v = delta.dot acc + z
  | [], y, hy => by
    rw [rescores] at hy
    obtain rfl : 0 = y := Except.ok.inj hy
    refine ⟨0, ?_, fun acc => ⟨acc, by rw [List.reverse_nil, featuresFrom], (add_zero _).symm⟩⟩
    rw [rescores, mul_zero, add_zero]
    rfl
  | c :: cs, y, hy => by
    rw [rescores, exact_rat.total_cons_eq_ok] at hy
    obtain ⟨a, b, ha, hb, rfl⟩ := hy
    obtain ⟨z, hz, hwalk⟩ := rescore_moved h c ha
    obtain ⟨z', hz', hwalk'⟩ := rescores_moved h cs hb
    refine ⟨z + z', ?_, fun acc => ?_⟩
    · rw [rescores, exact_rat.total_cons_eq_ok]
      exact ⟨_, _, hz, hz', by ring⟩
    · obtain ⟨v', hv', hdot'⟩ := hwalk' acc
      obtain ⟨v, hv, hdot⟩ := hwalk v'
      refine ⟨v, ?_, by rw [hdot, hdot']; ring⟩
      rw [List.reverse_cons, featuresFrom_append, hv']
      exact hv

end

/-- A move along features adds to the score of every cell what it scores of its features. -/
theorem exists_rescore_moved (h : delta.Within m.Known) {c : Cell Rat} {y : Rat}
    (hy : m.rescore c = .ok y) : ∃ v, m.cellFeatures c = .ok v ∧
      (m.change (.moved step delta)).rescore c = .ok (y + step * delta.dot v) := by
  obtain ⟨z, hz, hwalk⟩ := rescore_moved step h c hy
  obtain ⟨v, hv, hdot⟩ := hwalk .empty
  rw [SparseVector.dot_empty, zero_add] at hdot
  exact ⟨v, hv, by rw [hdot, hz]⟩

end

end Model

end Categorial
