import Categorial.Model.Basic
import Categorial.Proofs.Model.Vector
import Categorial.Proofs.Scalar.Tolerant

/-!
Vectors that are made anew. A copy has the keys of a vector in their order, each with its value
added to zero. Main statement: the weights of a copy are like those of the vector, so all scores by
either have the same value, and features are the same.
-/

namespace Categorial

open TolerantScalar

theorem setPair_of_not_mem {K : Type} {key : FeatureKey} (value : K)
    {pairs : List (FeatureKey × K)} (h : key ∉ pairs.map (·.1)) :
    setPair key value pairs = pairs ++ [(key, value)] := by
  induction pairs with
  | nil => rfl
  | cons p pairs ih =>
    rw [List.map_cons, List.mem_cons, not_or] at h
    rw [setPair, if_neg h.1, ih h.2, List.cons_append]

namespace SparseVector

section Copy

variable {K : Type} [Scalar K]

/-- Pairs of new keys go behind the others, their values added to zero. -/
theorem pairs_foldl_addAt (v : SparseVector K) {pairs : List (FeatureKey × K)}
    (h : ((v.pairs ++ pairs).map (·.1)).Nodup) :
    (pairs.foldl (fun v p => v.addAt p.1 p.2) v).pairs =
      v.pairs ++ pairs.map fun p => (p.1, 0 + p.2) := by
  induction pairs generalizing v with
  | nil => exact (List.append_nil _).symm
  | cons p pairs ih =>
    rw [List.map_append, List.map_cons, List.nodup_append'] at h
    obtain ⟨hv, hpairs, hdisjoint⟩ := h
    have hkey : p.1 ∉ v.pairs.map (·.1) := fun hmem => hdisjoint hmem List.mem_cons_self
    have hfirst : (v.addAt p.1 p.2).pairs = v.pairs ++ [(p.1, 0 + p.2)] := by
      rw [addAt, get, get?_eq_none_iff.2 hkey]
      exact setPair_of_not_mem _ hkey
    rw [List.foldl_cons, ih _, hfirst, List.append_assoc, List.map_cons, List.singleton_append]
    rw [hfirst, List.append_assoc, List.singleton_append, List.map_append, List.map_cons,
      List.nodup_append']
    exact ⟨hv, hpairs, hdisjoint⟩

theorem pairs_copy (v : SparseVector K) : v.copy.pairs = v.pairs.map fun p => (p.1, 0 + p.2) := by
  exact pairs_foldl_addAt empty v.distinct

theorem keys_copy (v : SparseVector K) : v.copy.keys = v.keys := by
  rw [keys, keys, pairs_copy, List.map_map]
  rfl

end Copy

variable {K : Type} [Scalar K] [OrderedScalar K] [TolerantScalar K] {v w : SparseVector K}

/-- Whether two vectors have the same keys in the same order, with values that are alike. -/
def Alike (v w : SparseVector K) : Prop :=
  List.Forall₂ (fun p q => p.1 = q.1 ∧ TolerantScalar.Alike p.2 q.2) v.pairs w.pairs

theorem copy_alike (v : SparseVector K) : v.copy.Alike v := by
  rw [Alike, pairs_copy, List.forall₂_map_left_iff, List.forall₂_same]
  exact fun p _ => ⟨rfl, TolerantScalar.zero_add p.2⟩

/-- Vectors that are alike have alike values for a key, or both have none. -/
theorem Alike.get? (h : v.Alike w) (k : FeatureKey) :
    Option.Rel TolerantScalar.Alike (v.get? k) (w.get? k) := by
  rw [Alike] at h
  rw [SparseVector.get?, SparseVector.get?]
  generalize v.pairs = ps, w.pairs = qs at h
  induction h with
  | nil => exact .none
  | @cons p q ps qs hpq _ ih =>
    obtain ⟨hkey, hvalue⟩ := hpq
    rw [List.lookup_cons, List.lookup_cons, hkey]
    split
    · exact .some hvalue
    · exact ih

theorem Alike.value?_eq (h : v.Alike w) (k : FeatureKey) :
    (v.get? k).map OrderedScalar.value? = (w.get? k).map OrderedScalar.value? := by
  have hvalues := h.get? k
  generalize v.get? k = x, w.get? k = y at hvalues
  cases hvalues with
  | none => rfl
  | some hxy => exact congrArg some (TolerantScalar.value?_eq hxy)

theorem Alike.get (h : v.Alike w) (k : FeatureKey) :
    TolerantScalar.Alike (v.get k) (w.get k) := by
  have hvalues := h.get? k
  rw [SparseVector.get, SparseVector.get]
  generalize v.get? k = x, w.get? k = y at hvalues
  cases hvalues with
  | none => exact TolerantScalar.refl _
  | some hxy => exact hxy

theorem Alike.contains_eq (h : v.Alike w) (k : FeatureKey) : v.contains k = w.contains k := by
  have hvalues := h.get? k
  rw [SparseVector.contains, SparseVector.contains]
  generalize v.get? k = x, w.get? k = y at hvalues
  cases hvalues <;> rfl

/-- The inner products of vectors that are alike with another one are alike. -/
theorem Alike.dot (h : v.Alike w) (u : SparseVector K) :
    TolerantScalar.Alike (v.dot u) (w.dot u) := by
  have hsize : v.size = w.size := h.length_eq
  rw [SparseVector.dot, SparseVector.dot, hsize]
  split
  · refine Scalar.sum_alike (List.forall₂_map_left_iff.2 (List.forall₂_map_right_iff.2 ?_))
    refine List.Forall₂.imp (fun p q hpq => ?_) h
    rw [hpq.1]
    exact TolerantScalar.mul hpq.2 (TolerantScalar.refl _)
  · refine Scalar.sum_alike (List.forall₂_map_left_iff.2 (List.forall₂_map_right_iff.2 ?_))
    exact List.forall₂_same.2 fun p _ => TolerantScalar.mul (TolerantScalar.refl _) (h.get p.1)

end SparseVector

namespace Model

variable {K : Type} [Scalar K] [OrderedScalar K] [TolerantScalar K] {m : Model K}
  {theta : SparseVector K}

/-- The features of an entry depend on the keys of the weights alone. -/
theorem entryFeatures_of_alike (h : theta.Alike m.theta) (e : Entry) :
    { m with theta := theta }.entryFeatures e = m.entryFeatures e := by
  rw [entryFeatures, entryFeatures]
  congr 1
  refine List.map_congr_left fun f _ => ?_
  rw [LexicalFeatures.compute, LexicalFeatures.compute, h.contains_eq]

/-- The score of an entry by weights that are alike. -/
theorem scoreEntry_alike (h : theta.Alike m.theta) (e : Entry) :
    AlikeResult ({ m with theta := theta }.scoreEntry e) (m.scoreEntry e) := by
  refine Scalar.total_alike (List.forall₂_map_left_iff.2 (List.forall₂_map_right_iff.2 ?_))
  refine List.forall₂_same.2 fun f _ => ?_
  have hweights := h.get? (f.key e)
  rw [LexicalFeatures.score, LexicalFeatures.score]
  generalize theta.get? (f.key e) = x, m.theta.get? (f.key e) = y at hweights
  cases hweights with
  | none => exact .refl _
  | some hxy => exact .ok hxy

theorem map_dot_alike (h : theta.Alike m.theta) (x : Except Fault (SparseVector K)) :
    AlikeResult (x.map theta.dot) (x.map m.theta.dot) := by
  cases x with
  | error fault => exact .error fault
  | ok u => exact .ok (h.dot u)

/-- The score of a rule by weights that are alike. -/
theorem scoreRule_alike (h : theta.Alike m.theta) (rule : RuleName) :
    AlikeResult ({ m with theta := theta }.scoreRule rule) (m.scoreRule rule) := by
  refine Scalar.total_alike (List.forall₂_map_left_iff.2 (List.forall₂_map_right_iff.2 ?_))
  exact List.forall₂_same.2 fun f _ => map_dot_alike h _

/-- The score of an execution by weights that are alike. -/
theorem scoreExecution_alike (h : theta.Alike m.theta) (result : Value) :
    AlikeResult ({ m with theta := theta }.scoreExecution result) (m.scoreExecution result) := by
  refine Scalar.total_alike (List.forall₂_map_left_iff.2 (List.forall₂_map_right_iff.2 ?_))
  exact List.forall₂_same.2 fun f _ => map_dot_alike h _

end Model

end Categorial
