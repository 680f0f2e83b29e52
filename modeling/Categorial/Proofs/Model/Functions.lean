import Mathlib.Algebra.BigOperators.Finprod
import Mathlib.Algebra.Group.Finsupp
import Mathlib.Data.Finsupp.SMul
import Mathlib.GroupTheory.GroupAction.Ring
import Categorial.Proofs.Model.Support

/-!
Sparse vectors of rational numbers as functions of the keys that are zero at all but finitely many
of them. Stored zeros, the order of the keys and the choice of the vector that an inner product goes
over are not seen by these functions. Main statement: every operation on vectors is the operation on
functions, two vectors are the same just if their functions are equal, and the inner product is the
sum of all products of values.
-/

namespace Categorial.SparseVector

/-- The values of a vector, as a function that is zero where the vector has no key. -/
noncomputable def values (v : SparseVector Rat) : FeatureKey →₀ Rat :=
  Finsupp.onFinset v.keys.toFinset v.get fun k hk =>
    List.mem_toFinset.2 (not_imp_comm.1 (get_of_not_mem (k := k)) hk)

@[simp] theorem values_apply (v : SparseVector Rat) (k : FeatureKey) : v.values k = v.get k := rfl

theorem values_eq_iff {v w : SparseVector Rat} :
    v.values = w.values ↔ ∀ k, v.get k = w.get k :=
  DFunLike.ext_iff

@[simp] theorem values_empty : (empty : SparseVector Rat).values = 0 := by
  ext k
  exact get_empty k

/-! The operations, from one value added at a key to the mean of some vectors. -/

theorem values_addAt (v : SparseVector Rat) (key : FeatureKey) (x : Rat) :
    (v.addAt key x).values = v.values + Finsupp.single key x := by
  ext k
  rw [Finsupp.add_apply, Finsupp.single_apply, values_apply, get_addAt, values_apply]
  exact congrArg (v.get k + ·) (if_congr eq_comm rfl rfl)

theorem values_ofPairs (pairs : List (FeatureKey × Rat)) :
    (ofPairs pairs).values = (pairs.map fun p => Finsupp.single p.1 p.2).sum := by
  suffices h : ∀ v : SparseVector Rat, (pairs.foldl (fun v p => v.addAt p.1 p.2) v).values =
      v.values + (pairs.map fun p => Finsupp.single p.1 p.2).sum by
    rw [ofPairs, h, values_empty, zero_add]
  induction pairs with
  | nil =>
    intro v
    exact (add_zero v.values).symm
  | cons p pairs ih =>
    intro v
    rw [List.foldl_cons, ih, values_addAt, List.map_cons, List.sum_cons, add_assoc]

/-- The pairs that a vector is made from are weights as they are. -/
theorem ofScores_rat (pairs : List (FeatureKey × Rat)) : ofScores pairs = .ok (ofPairs pairs) := by
  have hweighed : pairs.mapM (fun p => (Scalar.weight p.2).map fun x => (p.1, x)) =
      Except.ok (ε := Fault) pairs := by
    induction pairs with
    | nil => rfl
    | cons p pairs ih =>
      rw [List.mapM_cons, ih]
      rfl
  rw [ofScores, hweighed]
  rfl

theorem values_addTimes (v w : SparseVector Rat) (c : Rat) :
    (v.addTimes c w).values = v.values + c • w.values := by
  ext k
  exact get_addTimes v w c k

theorem values_addTimes_one (v w : SparseVector Rat) :
    (v.addTimes 1 w).values = v.values + w.values := by
  rw [values_addTimes]
  exact congrArg (v.values + ·) (one_smul Rat w.values)

theorem values_add (v w : SparseVector Rat) : (v.add w).values = v.values + w.values := by
  ext k
  exact get_add v w k

theorem values_sub (v w : SparseVector Rat) : (v.sub w).values = v.values - w.values := by
  ext k
  exact get_sub v w k

theorem values_scale (v : SparseVector Rat) (c : Rat) : (v.scale c).values = c • v.values := by
  ext k
  rw [values_apply, get_scale, mul_comm]
  rfl

theorem values_neg (v : SparseVector Rat) : v.neg.values = -v.values := by
  rw [neg, values_scale]
  exact neg_one_smul Rat v.values

theorem values_dropZeros (v : SparseVector Rat) : (v.dropZeros 0).values = v.values := by
  ext k
  exact get_dropZeros v k

theorem values_sum (vs : List (SparseVector Rat)) : (sum vs).values = (vs.map values).sum := by
  suffices h : ∀ acc : SparseVector Rat, (vs.foldl (fun acc v => acc.addTimes 1 v) acc).values =
      acc.values + (vs.map values).sum by
    rw [sum, h, values_empty, zero_add]
  induction vs with
  | nil =>
    intro acc
    exact (add_zero acc.values).symm
  | cons v vs ih =>
    intro acc
    rw [List.foldl_cons, ih, values_addTimes_one, List.map_cons, List.sum_cons, add_assoc]

/-- The mean of no vectors is zero, as is their sum. -/
theorem values_mean (vs : List (SparseVector Rat)) :
    (mean vs).values = (vs.length : Rat)⁻¹ • (vs.map values).sum := by
  rw [mean]
  split
  · rename_i hempty
    rw [List.isEmpty_iff.1 hempty, values_empty, List.map_nil, List.sum_nil, smul_zero]
  · rw [values_scale, values_sum, ← one_div]
    rfl

/-! When two vectors are the same. -/

/-- The keys that are left without zeros are those with values. -/
theorem contains_dropZeros {v : SparseVector Rat} {k : FeatureKey} :
    (v.dropZeros 0).contains k = true ↔ v.get k ≠ 0 := by
  rw [← get_dropZeros v k]
  refine ⟨get_ne_zero_of_dropZeros, fun hk => ?_⟩
  by_contra hout
  exact hk (get_of_not_mem fun hmem => hout (contains_iff_mem_keys.2 hmem))

theorem get?_of_contains {v : SparseVector Rat} {k : FeatureKey} (h : v.contains k = true) :
    v.get? k = some (v.get k) := by
  obtain ⟨x, hx⟩ := Option.isSome_iff_exists.1 h
  rw [get, hx]
  rfl

theorem agreesWith_iff {v w : SparseVector Rat} :
    v.agreesWith w = true ↔ ∀ k, v.contains k = true → w.contains k = true ∧ v.get k = w.get k := by
  rw [agreesWith, List.all_eq_true]
  constructor
  · intro h k hk
    obtain ⟨p, hp, rfl⟩ := List.mem_map.1 (contains_iff_mem_keys.1 hk)
    have hagree := h p hp
    split at hagree
    · rename_i x hx
      refine ⟨by rw [contains, hx]; rfl, ?_⟩
      rw [get_of_mem hp, get, hx]
      exact beq_iff_eq.1 hagree
    · cases hagree
  · intro h p hp
    obtain ⟨hk, hvalue⟩ := h p.1 (contains_of_mem hp)
    rw [get?_of_contains hk, ← hvalue, get_of_mem hp]
    exact beq_self_eq_true p.2

/-- A vector that has the keys of another one, and as many, has no other keys. -/
theorem contains_of_size_eq {v w : SparseVector Rat} (hsize : v.size = w.size)
    (h : ∀ k, v.contains k = true → w.contains k = true) {k : FeatureKey}
    (hk : w.contains k = true) : v.contains k = true := by
  have hsub : v.keys ⊆ w.keys := fun k hk =>
    contains_iff_mem_keys.1 (h k (contains_iff_mem_keys.2 hk))
  have hlength : w.keys.length ≤ v.keys.length := by
    rw [keys, keys, List.length_map, List.length_map]
    exact hsize.ge
  have hperm : v.keys.Perm w.keys := (v.distinct.subperm hsub).perm_of_length_le hlength
  exact contains_iff_mem_keys.2 (hperm.mem_iff.2 (contains_iff_mem_keys.1 hk))

/-- Vectors with the same keys have as many. -/
theorem size_eq_of_contains {v w : SparseVector Rat}
    (h : ∀ k, v.contains k = true ↔ w.contains k = true) : v.size = w.size := by
  have hperm : v.keys.Perm w.keys := by
    refine (List.perm_ext_iff_of_nodup v.distinct w.distinct).2 fun k => ?_
    exact contains_iff_mem_keys.symm.trans ((h k).trans contains_iff_mem_keys)
  have hlength := hperm.length_eq
  rwa [keys, keys, List.length_map, List.length_map] at hlength

/-- Two vectors are the same just if their values are, whatever zeros they store. -/
theorem same_iff {v w : SparseVector Rat} : v.same w = true ↔ v.values = w.values := by
  rw [same, Bool.and_eq_true, beq_iff_eq, agreesWith_iff, values_eq_iff]
  simp only [get_dropZeros]
  constructor
  · rintro ⟨hsize, hagree⟩ k
    by_cases hk : (v.dropZeros 0).contains k = true
    · exact (hagree k hk).2
    · -- A key that `v` has no value for is no key of `w` either, for the two have as many.
      have hkeys := contains_of_size_eq hsize (fun k hk => (hagree k hk).1) (k := k)
      rw [contains_dropZeros] at hk hkeys
      rw [contains_dropZeros] at hkeys
      rw [not_not.1 hk, not_not.1 (mt hkeys hk)]
  · intro h
    have hkeys (k : FeatureKey) :
        (v.dropZeros 0).contains k = true ↔ (w.dropZeros 0).contains k = true := by
      rw [contains_dropZeros, contains_dropZeros, h]
    exact ⟨size_eq_of_contains hkeys, fun k hk => ⟨(hkeys k).1 hk, h k⟩⟩

/-! Inner products. -/

/-- The inner product is the sum of the products of values over all keys. -/
theorem dot_eq_finsum (v w : SparseVector Rat) : v.dot w = ∑ᶠ k, v.values k * w.values k := by
  have hv : v.keys.toFinset ⊆ support [v, w] := keys_subset_support (by simp)
  have hw : w.keys.toFinset ⊆ support [v, w] := keys_subset_support (by simp)
  rw [dot_eq_sum hv hw, finsum_eq_sum_of_support_subset]
  · rfl
  · intro k hk
    refine hv (List.mem_toFinset.2 ?_)
    by_contra hout
    have hzero : v.values k * w.values k = 0 := by
      rw [values_apply, get_of_not_mem hout, zero_mul]
    exact hk hzero

/-- What it is for functions of the keys to say all that there is to say of vectors: they have the
values of the vectors, and what is done with vectors is done with their functions. -/
structure Faithful (f : SparseVector Rat → FeatureKey →₀ Rat) : Prop where
  apply : ∀ (v : SparseVector Rat) (k : FeatureKey), f v k = v.get k
  /-- A vector is made from pairs, and values of equal keys are added up. -/
  ofScores : ∀ pairs : List (FeatureKey × Rat),
    (ofScores pairs).map f = .ok (pairs.map fun p => Finsupp.single p.1 p.2).sum
  add : ∀ v w : SparseVector Rat, f (v.add w) = f v + f w
  sub : ∀ v w : SparseVector Rat, f (v.sub w) = f v - f w
  neg : ∀ v : SparseVector Rat, f v.neg = -f v
  scale : ∀ (c : Rat) (v : SparseVector Rat), f (v.scale c) = c • f v
  addTimes : ∀ (c : Rat) (v w : SparseVector Rat), f (v.addTimes c w) = f v + c • f w
  sum : ∀ vs : List (SparseVector Rat), f (sum vs) = (vs.map f).sum
  mean : ∀ vs : List (SparseVector Rat), f (mean vs) = (vs.length : Rat)⁻¹ • (vs.map f).sum
  dropZeros : ∀ v : SparseVector Rat, f (v.dropZeros 0) = f v
  same_iff : ∀ v w : SparseVector Rat, v.same w = true ↔ f v = f w

/-- What it is for a product of vectors to be the inner product of functions that stand for them. -/
structure InnerProduct (f : SparseVector Rat → FeatureKey →₀ Rat)
    (product : SparseVector Rat → SparseVector Rat → Rat) : Prop where
  eq_finsum : ∀ v w, product v w = ∑ᶠ k, f v k * f w k
  comm : ∀ v w, product v w = product w v
  add_left : ∀ u v w, product (u.add v) w = product u w + product v w
  add_right : ∀ u v w, product u (v.add w) = product u v + product u w
  scale_left : ∀ c v w, product (v.scale c) w = c * product v w
  scale_right : ∀ c v w, product v (w.scale c) = c * product v w
  dropZeros_left : ∀ v w, product (v.dropZeros 0) w = product v w
  dropZeros_right : ∀ v w, product v (w.dropZeros 0) = product v w

theorem faithful_values : Faithful values where
  apply := values_apply
  ofScores pairs := by
    rw [ofScores_rat, ← values_ofPairs]
    rfl
  add := values_add
  sub := values_sub
  neg := values_neg
  scale c v := values_scale v c
  addTimes c v w := values_addTimes v w c
  sum := values_sum
  mean := values_mean
  dropZeros := values_dropZeros
  same_iff _ _ := same_iff

/-- What is linear in one vector is linear in the other one, for the product is symmetric. -/
theorem innerProduct_dot : InnerProduct values dot where
  eq_finsum := dot_eq_finsum
  comm := dot_comm
  add_left u v w := by rw [dot_comm, dot_add, dot_comm w, dot_comm w]
  add_right := dot_add
  scale_left c v w := by rw [dot_comm, dot_scale, dot_comm w, mul_comm]
  scale_right c v w := by rw [dot_scale, mul_comm]
  dropZeros_left v w := by rw [dot_comm, dot_dropZeros, dot_comm]
  dropZeros_right := dot_dropZeros

/-- Sparse vectors are the functions that their values make. -/
theorem values_represent : Faithful values ∧ InnerProduct values dot :=
  ⟨faithful_values, innerProduct_dot⟩

end Categorial.SparseVector
