import Categorial.Model.Basic
import Categorial.Proofs.Model.Vector
import Categorial.Proofs.Scalar.Exact

/-!
Scores and features of the steps of a parse, over rational numbers. Main statements: the score of an
entry is the inner product of the weights with its features, plus the start scores for the feature
sets that have no weight for it; the score of a rule and that of an execution are the inner products
of the weights with their features.
-/

namespace Categorial.Model

open Scalar (total exact_rat)

/-- Whether every lexical feature set has a weight for an entry. -/
def Weighs {K : Type} (m : Model K) (e : Entry) : Prop :=
  ∀ f ∈ m.lexical, m.theta.contains (f.key e) = true

instance {K : Type} (m : Model K) (e : Entry) : Decidable (m.Weighs e) :=
  inferInstanceAs (Decidable (∀ f ∈ m.lexical, m.theta.contains (f.key e) = true))

/-- The start scores of some entries, for the feature sets that have no weight for them. -/
def startScores {K : Type} [Scalar K] (m : Model K) (es : List Entry) : List (Except Fault K) :=
  es.flatMap fun e => (m.lexical.filter fun f => !m.theta.contains (f.key e)).map fun f => f.start e

theorem startScores_append (m : Model Rat) (es es' : List Entry) :
    m.startScores (es ++ es') = m.startScores es ++ m.startScores es' :=
  List.flatMap_append

/-- There are no start scores of entries that have all their weights. -/
theorem startScores_eq_nil {m : Model Rat} {es : List Entry} (h : ∀ e ∈ es, m.Weighs e) :
    m.startScores es = [] := by
  rw [startScores, List.flatMap_eq_nil_iff]
  intro e he
  rw [List.map_eq_nil_iff, List.filter_eq_nil_iff]
  intro f hf
  rw [h e he f hf]
  exact Bool.false_ne_true

variable {theta : SparseVector Rat}

/-- A feature set with a weight for an entry scores it by its feature. -/
theorem score_of_contains {f : LexicalFeatures} {e : Entry} (h : theta.contains (f.key e) = true) :
    f.score e theta = .ok (theta.dot (f.compute e theta)) := by
  obtain ⟨weight, hweight⟩ := Option.isSome_iff_exists.1 h
  have hget : theta.get (f.key e) = weight := by
    rw [SparseVector.get, hweight]
    rfl
  rw [LexicalFeatures.compute, if_pos h, SparseVector.dot_single, hget, LexicalFeatures.score,
    hweight]
  exact congrArg Except.ok (mul_one weight).symm

/-- A feature set without a weight for an entry scores it by its start score, and has no feature. -/
theorem score_of_not_contains {f : LexicalFeatures} {e : Entry}
    (h : theta.contains (f.key e) = false) :
    f.score e theta = f.start e ∧ theta.dot (f.compute e theta) = 0 := by
  refine ⟨?_, ?_⟩
  · rw [LexicalFeatures.score, Option.isNone_iff_eq_none.1 (Option.isSome_eq_false_iff.1 h)]
  · rw [LexicalFeatures.compute, h, if_neg Bool.false_ne_true, SparseVector.dot_empty]

/-- The score of an entry is made of its features and of its start scores. -/
theorem scoreEntry_eq {m : Model Rat} {e : Entry} {y : Rat} (h : m.scoreEntry e = .ok y) :
    ∃ x, total (m.startScores [e]) = .ok x ∧ y = m.theta.dot (m.entryFeatures e) + x := by
  rw [scoreEntry] at h
  rw [startScores, List.flatMap_singleton, entryFeatures, SparseVector.dot_sum, List.map_map]
  generalize m.lexical = fs at h ⊢
  induction fs generalizing y with
  | nil =>
    obtain rfl : 0 = y := Except.ok.inj h
    exact ⟨0, rfl, (add_zero 0).symm⟩
  | cons f fs ih =>
    rw [List.map_cons, exact_rat.total_cons_eq_ok] at h
    obtain ⟨a, b, ha, hb, rfl⟩ := h
    obtain ⟨x, hx, rfl⟩ := ih hb
    rw [List.map_cons, List.sum_cons, Function.comp_apply, List.filter_cons]
    cases hcontains : m.theta.contains (f.key e) with
    | true =>
      rw [score_of_contains hcontains, Except.ok.injEq] at ha
      refine ⟨x, hx, ?_⟩
      rw [← ha, add_assoc]
    | false =>
      obtain ⟨hstart, hdot⟩ := score_of_not_contains hcontains
      rw [hstart] at ha
      refine ⟨a + x, exact_rat.total_cons_eq_ok.2 ⟨a, x, ha, hx, rfl⟩, ?_⟩
      rw [hdot]
      ring

/-- Where the scores of some features add up, so do the features, and the weights score the sum. -/
theorem totalVector_of_total {vs : List (Except Fault (SparseVector Rat))} {y : Rat}
    (h : total (vs.map (Except.map theta.dot)) = .ok y) :
    ∃ v, totalVector vs = .ok v ∧ theta.dot v = y := by
  suffices hall : ∃ us : List (SparseVector Rat), vs.mapM id = .ok us ∧
      (us.map theta.dot).sum = y by
    obtain ⟨us, hus, rfl⟩ := hall
    exact ⟨.sum us, by rw [totalVector, hus]; rfl, SparseVector.dot_sum theta us⟩
  induction vs generalizing y with
  | nil => exact ⟨[], rfl, Except.ok.inj h⟩
  | cons v vs ih =>
    rw [List.map_cons, exact_rat.total_cons_eq_ok] at h
    obtain ⟨a, b, ha, hb, rfl⟩ := h
    obtain ⟨us, hus, rfl⟩ := ih hb
    cases v with
    | error fault => simp [Except.map] at ha
    | ok u =>
      obtain rfl : theta.dot u = a := Except.ok.inj ha
      refine ⟨u :: us, ?_, ?_⟩
      · rw [List.mapM_cons, hus]
        rfl
      · rw [List.map_cons, List.sum_cons]

/-- The score of a rule is the inner product of the weights with its features. -/
theorem scoreRule_eq {m : Model Rat} {rule : RuleName} {y : Rat} (h : m.scoreRule rule = .ok y) :
    ∃ v, m.ruleFeatures rule = .ok v ∧ m.theta.dot v = y := by
  refine totalVector_of_total ?_
  rw [List.map_map]
  exact h

/-- The score of an execution is the inner product of the weights with its features. -/
theorem scoreExecution_eq {m : Model Rat} {result : Value} {y : Rat}
    (h : m.scoreExecution result = .ok y) :
    ∃ v, m.executionFeatures result = .ok v ∧ m.theta.dot v = y := by
  refine totalVector_of_total ?_
  rw [List.map_map]
  exact h

end Categorial.Model
