import Mathlib.Algebra.Order.BigOperators.Ring.Finset
import Mathlib.Algebra.Order.Ring.Rat
import Mathlib.Tactic.Linarith
import Mathlib.Tactic.Ring
import Categorial.Model.Vector

/-!
Sparse vectors of rational numbers, seen through the value of each key. Main statements: the inner
product is a sum over keys, so it is symmetric, linear and bound by the Cauchy–Schwarz inequality,
and keys with the value zero do not matter to it.
-/

namespace Categorial

/-- A sum of rational numbers, added up left to right, is their sum. -/
theorem Scalar.sum_rat (xs : List Rat) : Scalar.sum xs = xs.sum := by
  rw [Scalar.sum, List.sum_eq_foldl]

namespace SparseVector

/-! The value of a key after each operation. -/

theorem get?_eq_none_iff {K : Type} {v : SparseVector K} {k : FeatureKey} :
    v.get? k = none ↔ k ∉ v.keys := by
  rw [get?, List.lookup_eq_none_iff, keys, List.mem_map, not_exists]
  refine forall_congr' fun p => ?_
  rw [bne_iff_ne, not_and, ne_comm]

theorem get_of_not_mem {v : SparseVector Rat} {k : FeatureKey} (h : k ∉ v.keys) : v.get k = 0 := by
  rw [get, get?_eq_none_iff.2 h]
  rfl

theorem lookup_of_mem {K : Type} {pairs : List (FeatureKey × K)} {p : FeatureKey × K}
    (hnodup : (pairs.map (·.1)).Nodup) (hp : p ∈ pairs) : pairs.lookup p.1 = some p.2 := by
  induction pairs with
  | nil => simp at hp
  | cons q pairs ih =>
    rw [List.map_cons, List.nodup_cons] at hnodup
    rcases List.mem_cons.1 hp with rfl | hp
    · exact List.lookup_cons_self
    · have hne : p.1 ≠ q.1 := by
        intro heq
        exact hnodup.1 (heq ▸ List.mem_map_of_mem hp)
      rw [List.lookup_cons, beq_false_of_ne hne]
      exact ih hnodup.2 hp

theorem get_of_mem {v : SparseVector Rat} {p : FeatureKey × Rat} (hp : p ∈ v.pairs) :
    v.get p.1 = p.2 := by
  rw [get, get?, lookup_of_mem v.distinct hp]
  rfl

@[simp] theorem get_empty (k : FeatureKey) : (empty : SparseVector Rat).get k = 0 := rfl

theorem get_addAt (v : SparseVector Rat) (key k : FeatureKey) (x : Rat) :
    (v.addAt key x).get k = v.get k + if k = key then x else 0 := by
  rw [addAt, get, get?_set]
  by_cases h : k = key
  · rw [if_pos h, if_pos h, h]
    rfl
  · rw [if_neg h, if_neg h, add_zero]
    rfl

/-- What some pairs give to a key: the values of the pairs with this key. -/
def given (pairs : List (FeatureKey × Rat)) (k : FeatureKey) : Rat :=
  (pairs.map fun p => if k = p.1 then p.2 else 0).sum

theorem given_cons (p : FeatureKey × Rat) (pairs : List (FeatureKey × Rat)) (k : FeatureKey) :
    given (p :: pairs) k = (if k = p.1 then p.2 else 0) + given pairs k := by
  rw [given, List.map_cons, List.sum_cons, given]

theorem get_foldl_addAt (pairs : List (FeatureKey × Rat)) (v : SparseVector Rat) (k : FeatureKey) :
    (pairs.foldl (fun v p => v.addAt p.1 p.2) v).get k = v.get k + given pairs k := by
  induction pairs generalizing v with
  | nil => simp [given]
  | cons p pairs ih => rw [List.foldl_cons, ih, get_addAt, given_cons, add_assoc]

theorem get_ofPairs (pairs : List (FeatureKey × Rat)) (k : FeatureKey) :
    (ofPairs pairs).get k = given pairs k := by
  rw [ofPairs, get_foldl_addAt, get_empty, zero_add]

/-- Pairs with distinct keys give a key the value that they have for it. -/
theorem given_map {pairs : List (FeatureKey × Rat)} (hnodup : (pairs.map (·.1)).Nodup)
    {f : Rat → Rat} (hf : f 0 = 0) (k : FeatureKey) :
    given (pairs.map fun p => (p.1, f p.2)) k = f ((pairs.lookup k).getD 0) := by
  induction pairs with
  | nil => simp [given, hf]
  | cons p pairs ih =>
    rw [List.map_cons, List.nodup_cons] at hnodup
    rw [List.map_cons, given_cons, ih hnodup.2, List.lookup_cons]
    by_cases h : k = p.1
    · have hnone : pairs.lookup k = none := by
        rw [List.lookup_eq_none_iff]
        intro q hq
        rw [bne_iff_ne, h]
        intro heq
        exact hnodup.1 (heq ▸ List.mem_map_of_mem hq)
      simp [h ▸ hnone, h, hf]
    · simp [h, beq_false_of_ne h]

theorem get_addTimes (v w : SparseVector Rat) (c : Rat) (k : FeatureKey) :
    (v.addTimes c w).get k = v.get k + c * w.get k := by
  have hfold := get_foldl_addAt (w.pairs.map fun p => (p.1, c * p.2)) v k
  rw [List.foldl_map, given_map w.distinct (mul_zero c)] at hfold
  exact hfold

/-- A sum has the keys of its parts. -/
theorem contains_addTimes {K : Type} [Scalar K] {v w : SparseVector K} {c : K} {k : FeatureKey}
    (h : v.contains k = true) : (v.addTimes c w).contains k = true := by
  rw [addTimes]
  induction w.pairs generalizing v with
  | nil => exact h
  | cons p pairs ih =>
    refine ih ?_
    unfold addAt
    rw [contains, get?_set]
    split
    · rfl
    · exact h

/-- A multiple of a vector without a key changes nothing at this key. -/
theorem get?_addTimes_of_not_contains {K : Type} [Scalar K] {v w : SparseVector K} {c : K}
    {k : FeatureKey} (h : w.contains k = false) : (v.addTimes c w).get? k = v.get? k := by
  rw [contains, Option.isSome_eq_false_iff, Option.isNone_iff_eq_none, get?_eq_none_iff, keys] at h
  rw [addTimes]
  generalize w.pairs = pairs at h
  induction pairs generalizing v with
  | nil => rfl
  | cons p pairs ih =>
    rw [List.map_cons, List.mem_cons, not_or] at h
    rw [List.foldl_cons, ih h.2, addAt, get?_set, if_neg h.1]

theorem get_copy (v : SparseVector Rat) (k : FeatureKey) : v.copy.get k = v.get k := by
  have hgiven := given_map v.distinct (f := id) rfl k
  rw [show v.pairs.map (fun p => (p.1, id p.2)) = v.pairs from List.map_id _] at hgiven
  rw [copy, get_ofPairs, hgiven]
  rfl

theorem get_scale (v : SparseVector Rat) (c : Rat) (k : FeatureKey) :
    (v.scale c).get k = v.get k * c := by
  rw [scale, get_ofPairs]
  exact given_map v.distinct (f := (· * c)) (zero_mul c) k

theorem get_sub (v w : SparseVector Rat) (k : FeatureKey) :
    (v.sub w).get k = v.get k - w.get k := by
  rw [sub, get_addTimes, get_copy, neg_one_mul, sub_eq_add_neg]

theorem get_add (v w : SparseVector Rat) (k : FeatureKey) :
    (v.add w).get k = v.get k + w.get k := by
  rw [add, get_addTimes, get_copy]
  exact congrArg _ (one_mul _)

/-- A value is away from zero just if it is not zero. -/
theorem lt_abs_iff {x : Rat} : Scalar.lt 0 (Scalar.abs x) = true ↔ x ≠ 0 := by
  have habs : Scalar.abs x = |x| := by
    simp only [Scalar.abs, Scalar.lt, decide_eq_true_eq]
    split
    · rename_i hneg
      exact (abs_of_neg hneg).symm
    · rename_i hpos
      exact (abs_of_nonneg (not_lt.1 hpos)).symm
  rw [habs]
  exact decide_eq_true_iff.trans abs_pos

/-- Values that are zero give nothing to a key. -/
theorem get_dropZeros (v : SparseVector Rat) (k : FeatureKey) :
    (v.dropZeros 0).get k = v.get k := by
  have hzero : ∀ x : Rat, Scalar.lt 0 (Scalar.abs x) = false → x = 0 := by
    intro x hx
    by_contra hne
    rw [lt_abs_iff.2 hne] at hx
    cases hx
  have hfilter : ∀ pairs : List (FeatureKey × Rat),
      given (pairs.filter fun p => Scalar.lt 0 (Scalar.abs p.2)) k = given pairs k := by
    intro pairs
    induction pairs with
    | nil => rfl
    | cons p pairs ih =>
      rw [List.filter_cons, given_cons]
      split
      · rw [given_cons, ih]
      · rename_i hdrop
        rw [ih, hzero p.2 (Bool.not_eq_true _ ▸ hdrop), ite_self, zero_add]
  rw [dropZeros, get_ofPairs, hfilter, ← get_ofPairs, ← copy, get_copy]

/-! Inner products. -/

theorem dotOver_eq_sum (v w : SparseVector Rat) :
    dotOver v w = ∑ k ∈ v.keys.toFinset, v.get k * w.get k := by
  have hnodup : v.keys.Nodup := v.distinct
  rw [List.sum_toFinset _ hnodup, dotOver, Scalar.sum_rat, keys, List.map_map]
  congr 1
  refine List.map_congr_left ?_
  intro p hp
  rw [Function.comp_apply, get_of_mem hp]

/-- Keys that a vector lacks add nothing to a sum of products. -/
theorem sum_keys_eq {v : SparseVector Rat} (w : SparseVector Rat) {s : Finset FeatureKey}
    (h : v.keys.toFinset ⊆ s) :
    ∑ k ∈ v.keys.toFinset, v.get k * w.get k = ∑ k ∈ s, v.get k * w.get k := by
  refine Finset.sum_subset h ?_
  intro k _ hk
  rw [List.mem_toFinset] at hk
  rw [get_of_not_mem hk, zero_mul]

/-- The inner product is a sum over any keys that include those of the vectors. -/
theorem dot_eq_sum {v w : SparseVector Rat} {s : Finset FeatureKey} (hv : v.keys.toFinset ⊆ s)
    (hw : w.keys.toFinset ⊆ s) : v.dot w = ∑ k ∈ s, v.get k * w.get k := by
  rw [dot]
  split
  · rw [dotOver_eq_sum, sum_keys_eq w hv]
  · rw [dotOver_eq_sum, sum_keys_eq v hw]
    exact Finset.sum_congr rfl fun k _ => mul_comm _ _

/-- The keys of some vectors. -/
def support (vs : List (SparseVector Rat)) : Finset FeatureKey := (vs.flatMap keys).toFinset

theorem keys_subset_support {vs : List (SparseVector Rat)} {v : SparseVector Rat} (h : v ∈ vs) :
    v.keys.toFinset ⊆ support vs := by
  intro k hk
  rw [List.mem_toFinset] at hk
  rw [support, List.mem_toFinset, List.mem_flatMap]
  exact ⟨v, h, hk⟩

theorem dot_comm (v w : SparseVector Rat) : v.dot w = w.dot v := by
  have hv : v.keys.toFinset ⊆ support [v, w] := keys_subset_support (by simp)
  have hw : w.keys.toFinset ⊆ support [v, w] := keys_subset_support (by simp)
  rw [dot_eq_sum hv hw, dot_eq_sum hw hv]
  exact Finset.sum_congr rfl fun k _ => mul_comm _ _

/-- The inner product is linear in the vector whose values are a combination of others. -/
theorem dot_linear (u : SparseVector Rat) {v w z : SparseVector Rat} {c : Rat}
    (h : ∀ k, z.get k = v.get k + c * w.get k) : u.dot z = u.dot v + c * u.dot w := by
  have hu : u.keys.toFinset ⊆ support [u, v, w, z] := keys_subset_support (by simp)
  have hv : v.keys.toFinset ⊆ support [u, v, w, z] := keys_subset_support (by simp)
  have hw : w.keys.toFinset ⊆ support [u, v, w, z] := keys_subset_support (by simp)
  have hz : z.keys.toFinset ⊆ support [u, v, w, z] := keys_subset_support (by simp)
  rw [dot_eq_sum hu hz, dot_eq_sum hu hv, dot_eq_sum hu hw, Finset.mul_sum,
    ← Finset.sum_add_distrib]
  refine Finset.sum_congr rfl ?_
  intro k _
  rw [h]
  ring

/-- The inner product with a vector depends on the values of the other one alone. -/
theorem dot_congr (u : SparseVector Rat) {v w : SparseVector Rat} (h : ∀ k, v.get k = w.get k) :
    u.dot v = u.dot w := by
  have hlinear : u.dot v = u.dot w + 0 * u.dot w :=
    dot_linear u fun k => by rw [h, zero_mul, add_zero]
  rw [hlinear, zero_mul, add_zero]

theorem dot_empty (u : SparseVector Rat) : u.dot empty = 0 := by
  have hempty : u.dot empty = u.dot empty + 1 * u.dot empty :=
    dot_linear u fun k => by simp
  linarith

theorem dot_addTimes (u v w : SparseVector Rat) (c : Rat) :
    u.dot (v.addTimes c w) = u.dot v + c * u.dot w :=
  dot_linear u (get_addTimes v w c)

theorem dot_self_addTimes (v w : SparseVector Rat) (c : Rat) :
    (v.addTimes c w).dot (v.addTimes c w) = v.dot v + 2 * c * v.dot w + c ^ 2 * w.dot w := by
  rw [dot_addTimes, dot_comm _ v, dot_comm _ w, dot_addTimes, dot_addTimes, dot_comm w v]
  ring

theorem dot_add (u v w : SparseVector Rat) : u.dot (v.add w) = u.dot v + u.dot w := by
  rw [dot_linear u (v := v) (w := w) (c := 1) fun k => by rw [get_add, one_mul], one_mul]

theorem dot_sub (u v w : SparseVector Rat) : u.dot (v.sub w) = u.dot v - u.dot w := by
  rw [dot_linear u (v := v) (w := w) (c := -1) fun k => by rw [get_sub]; ring]
  ring

theorem dot_scale (u v : SparseVector Rat) (c : Rat) : u.dot (v.scale c) = u.dot v * c := by
  rw [dot_linear u (v := empty) (w := v) (c := c) fun k => by rw [get_scale, get_empty]; ring,
    dot_empty, zero_add, mul_comm]

theorem dot_sum (u : SparseVector Rat) (vs : List (SparseVector Rat)) :
    u.dot (sum vs) = (vs.map u.dot).sum := by
  suffices h : ∀ acc : SparseVector Rat,
      u.dot (vs.foldl (fun acc v => acc.addTimes 1 v) acc) = u.dot acc + (vs.map u.dot).sum by
    rw [sum, h, dot_empty, zero_add]
  induction vs with
  | nil => simp
  | cons v vs ih =>
    intro acc
    rw [List.foldl_cons, ih, dot_addTimes, List.map_cons, List.sum_cons, ← add_assoc]
    exact congrArg (u.dot acc + · + _) (one_mul _)

/-- The inner product with a vector of a single key. -/
theorem dot_single (u : SparseVector Rat) (key : FeatureKey) (x : Rat) :
    u.dot (ofPairs [(key, x)]) = u.get key * x := by
  have hget : ∀ k, (ofPairs [(key, x)]).get k = if k = key then x else 0 := by
    intro k
    rw [get_ofPairs, given_cons]
    simp [given]
  have hu : u.keys.toFinset ⊆ support [u, ofPairs [(key, x)]] := keys_subset_support (by simp)
  have hv : (ofPairs [(key, x)]).keys.toFinset ⊆ support [u, ofPairs [(key, x)]] :=
    keys_subset_support (by simp)
  have hkey : key ∈ support [u, ofPairs [(key, x)]] :=
    hv (List.mem_toFinset.2 (List.mem_singleton_self key))
  rw [dot_eq_sum hu hv, Finset.sum_eq_single_of_mem key hkey]
  · rw [hget, if_pos rfl]
  · intro k _ hne
    rw [hget, if_neg hne, mul_zero]

/-- The inner product with a mean is the mean of the inner products. -/
theorem dot_mean (u : SparseVector Rat) {vs : List (SparseVector Rat)} (hvs : vs ≠ []) :
    u.dot (mean vs) = (vs.map u.dot).sum / vs.length := by
  have hempty : vs.isEmpty = false := by simpa using hvs
  rw [mean, hempty, if_neg Bool.false_ne_true, dot_scale, dot_sum]
  exact mul_one_div _ _

/-- The inner product with the mean of vectors that all have the same inner product. -/
theorem dot_mean_of_forall_eq {u : SparseVector Rat} {vs : List (SparseVector Rat)} {x : Rat}
    (hvs : vs ≠ []) (h : ∀ v ∈ vs, u.dot v = x) : u.dot (mean vs) = x := by
  have hlength : (vs.length : Rat) ≠ 0 :=
    Nat.cast_ne_zero.2 fun hzero => hvs (List.length_eq_zero_iff.1 hzero)
  rw [dot_mean u hvs, List.map_congr_left h, List.map_const', List.sum_replicate, nsmul_eq_mul,
    mul_div_cancel_left₀ x hlength]

/-- The inner product with a mean is no less than all inner products with the vectors are. -/
theorem le_dot_mean {u : SparseVector Rat} {vs : List (SparseVector Rat)} {x : Rat}
    (hvs : vs ≠ []) (h : ∀ v ∈ vs, x ≤ u.dot v) : x ≤ u.dot (mean vs) := by
  have hlength : (0 : Rat) < vs.length := Nat.cast_pos.2 (List.length_pos_iff.2 hvs)
  have hsum : vs.length • x ≤ (vs.map u.dot).sum := by
    have hsum := List.card_nsmul_le_sum (vs.map u.dot) x (by simpa using h)
    rwa [List.length_map] at hsum
  rw [dot_mean u hvs, le_div_iff₀ hlength, mul_comm]
  rwa [nsmul_eq_mul] at hsum

theorem dot_dropZeros (u v : SparseVector Rat) : u.dot (v.dropZeros 0) = u.dot v :=
  dot_congr u (get_dropZeros v)

theorem dot_self_nonneg (u : SparseVector Rat) : 0 ≤ u.dot u := by
  rw [dot_eq_sum (Finset.Subset.refl _) (Finset.Subset.refl _)]
  exact Finset.sum_nonneg fun k _ => mul_self_nonneg (u.get k)

theorem dot_self_pos {u : SparseVector Rat} {k : FeatureKey} (h : u.get k ≠ 0) : 0 < u.dot u := by
  have hk : k ∈ u.keys.toFinset := by
    by_contra hout
    exact h (get_of_not_mem fun hmem => hout (List.mem_toFinset.2 hmem))
  rw [dot_eq_sum (Finset.Subset.refl _) (Finset.Subset.refl _)]
  exact Finset.sum_pos' (fun k _ => mul_self_nonneg (u.get k)) ⟨k, hk, mul_self_pos.2 h⟩

/-- The Cauchy–Schwarz inequality. -/
theorem dot_sq_le (u v : SparseVector Rat) : u.dot v ^ 2 ≤ u.dot u * v.dot v := by
  have hu : u.keys.toFinset ⊆ support [u, v] := keys_subset_support (by simp)
  have hv : v.keys.toFinset ⊆ support [u, v] := keys_subset_support (by simp)
  rw [dot_eq_sum hu hv, dot_eq_sum hu hu, dot_eq_sum hv hv]
  simp only [← pow_two]
  exact Finset.sum_mul_sq_le_sq_mul_sq _ _ _

end SparseVector

end Categorial
