import Categorial.Parsing.Analyzer
import Categorial.Proofs.Collection.ByScore

/-!
Ranked parses. Main statement: where parses are sorted by defined scores, the best ones come first
and are those that no other one outscores.
-/

namespace Categorial.Parse

variable {K : Type} [Scalar K]

/-- Whether parses are ranked: no score is greater than one before it, and the best parses come
first and are those with the greatest score. -/
structure Ranked (ps : List (Parse K)) : Prop where
  descending : ps.Pairwise fun p q => Scalar.le q.score p.score = true
  best_first : best ps <+: ps
  mem_best : ∀ p, p ∈ best ps ↔ p ∈ ps ∧ ∀ q ∈ ps, Scalar.le q.score p.score = true

/-- Of parses with defined scores there is a best one. -/
theorem best_ne_nil {ps : List (Parse K)} (hdefined : ∀ p ∈ ps, Scalar.Defined p.score)
    (h : ps ≠ []) : best ps ≠ [] := by
  obtain ⟨first, rest, rfl⟩ := List.exists_cons_of_ne_nil h
  have hfirst : leads (first :: rest) first = true := hdefined first List.mem_cons_self
  exact List.ne_nil_of_mem (List.mem_filter.2 ⟨List.mem_cons_self, hfirst⟩)

variable [OrderedScalar K]

/-- Parses with defined scores of which none outscores one before it are ranked. -/
theorem ranked_of_pairwise {ps : List (Parse K)} (hdefined : ∀ p ∈ ps, Scalar.Defined p.score)
    (hsorted : ps.Pairwise fun p q => Scalar.lt p.score q.score = false) : Ranked ps := by
  have hdescending : ps.Pairwise fun p q => Scalar.le q.score p.score = true :=
    hsorted.imp_of_mem fun {p q} hp hq hnot =>
      Scalar.le_of_not_lt (hdefined p hp) (hdefined q hq) hnot
  cases ps with
  | nil => exact ⟨.nil, List.prefix_refl [], by simp [best]⟩
  | cons first rest =>
    have hle : ∀ p ∈ first :: rest, ∀ q ∈ first :: rest, Scalar.le q.score p.score = true ↔
        OrderedScalar.level q.score ≤ OrderedScalar.level p.score := fun p hp q hq =>
      OrderedScalar.le_iff_level (hdefined q hq) (hdefined p hp)
    have hbound : ∀ p ∈ first :: rest,
        OrderedScalar.level p.score ≤ OrderedScalar.level first.score := by
      intro p hp
      rcases List.mem_cons.1 hp with rfl | hrest
      · exact le_rfl
      · exact (hle first List.mem_cons_self p hp).1 ((List.pairwise_cons.1 hdescending).1 p hrest)
    have hleads : ∀ p ∈ first :: rest, leads (first :: rest) p = true ↔
        OrderedScalar.level first.score ≤ OrderedScalar.level p.score := by
      intro p hp
      rw [leads, List.head?_cons, Option.any_some, OrderedScalar.same_iff_level (hdefined p hp)]
      exact ⟨fun h => h.ge, fun h => (hbound p hp).antisymm h⟩
    refine ⟨hdescending, filter_prefix_of_pairwise ?_, fun p => ?_⟩
    · -- what comes before one of the best parses scores as much at least
      refine hdescending.imp_of_mem fun {p q} hp hq hdescends hq' => ?_
      rw [hleads q hq] at hq'
      rw [hleads p hp]
      exact hq'.trans ((hle p hp q hq).1 hdescends)
    · rw [best, List.mem_filter]
      refine and_congr_right fun hp => ?_
      rw [hleads p hp]
      constructor
      · intro hreach q hq
        exact (hle p hp q hq).2 ((hbound q hq).trans hreach)
      · intro hgreatest
        exact (hle p hp first List.mem_cons_self).1 (hgreatest first List.mem_cons_self)

/-- Parses that are sorted by defined scores are ranked. -/
theorem ranked_byScore {α : Type} {f : α → Parse K} {xs : List α}
    (h : ∀ x ∈ xs, Scalar.Defined (f x).score) :
    Ranked ((byScore (fun x => (f x).score) xs).map f) := by
  refine ranked_of_pairwise (List.forall_mem_map.2 fun x hx => ?_)
    (List.pairwise_map.2 (pairwise_byScore h))
  exact h x ((byScore_perm _ xs).mem_iff.1 hx)

end Categorial.Parse
