import Categorial.Chart.Features

/-!
Walks that add up the features of cells. Main statements: a walk over some cells and then others is
one walk after the other, so the features of a cell are those of its rule, added to what was found
before, and then those of its children, the last one first.
-/

namespace Categorial.Model

variable {K : Type} [Scalar K]

/-- A walk over some cells and then others is one walk after the other. -/
theorem featuresFrom_append (m : Model K) (as bs : List (Cell K)) (acc : SparseVector K) :
    m.featuresFrom (as ++ bs) acc = (m.featuresFrom as acc).bind (m.featuresFrom bs) := by
  induction as, acc using featuresFrom.induct m with
  | case1 acc => rw [List.nil_append, featuresFrom, Except.bind]
  | case2 e s score full mark rest acc ih => rw [List.cons_append, featuresFrom, featuresFrom, ih]
  | case3 category rule children s score full mark rest acc fault hfault =>
    rw [List.cons_append, featuresFrom, featuresFrom, hfault]
    rfl
  | case4 category rule children s score full mark rest acc features hfeatures ih =>
    rw [List.cons_append, featuresFrom, featuresFrom, hfeatures]
    simpa [List.append_assoc] using ih

variable (m : Model K) (category : Category) (c l r : Cell K) (s : Span) (score : K) (full : Bool)
  (mark : Nat) (acc : SparseVector K)

theorem featuresFrom_lexical (e : Entry) : m.featuresFrom [.lexical e s score full mark] acc =
    .ok (acc.addTimes 1 (m.entryFeatures e)) := by
  rw [featuresFrom, featuresFrom]

theorem featuresFrom_pair {rule : RuleName} {features : SparseVector K}
    (h : m.ruleFeatures rule = .ok features) :
    m.featuresFrom [.derived category rule [l, r] s score full mark] acc =
      (m.featuresFrom [r] (acc.addTimes 1 features)).bind (m.featuresFrom [l]) := by
  rw [featuresFrom, h]
  exact m.featuresFrom_append [r] [l] _

theorem featuresFrom_single {rule : RuleName} {features : SparseVector K}
    (h : m.ruleFeatures rule = .ok features) :
    m.featuresFrom [.derived category rule [c] s score full mark] acc =
      m.featuresFrom [c] (acc.addTimes 1 features) := by
  rw [featuresFrom, h]
  rfl

end Categorial.Model
