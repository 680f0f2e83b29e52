import Categorial.Parsing.Analyzer
import Categorial.Proofs.Collection.Gather
import Categorial.Proofs.Model.Vector

/-!
The keys that a vector may have. Whatever holds of the keys of some vectors holds of the keys of
what is made from them. Main statement: the features of a parse have keys for which there are
weights, or keys of rules and executions, which are shorter than those of entries.
-/

namespace Categorial

namespace SparseVector

variable {K : Type}

/-- Whether all keys of a vector have a property. -/
def Within (P : FeatureKey → Prop) (v : SparseVector K) : Prop := ∀ k, v.contains k = true → P k

variable {P : FeatureKey → Prop} {v w : SparseVector K}

theorem contains_of_mem {p : FeatureKey × K} (hp : p ∈ v.pairs) : v.contains p.1 = true := by
  rw [contains, get?, lookup_of_mem v.distinct hp]
  rfl

theorem contains_iff_mem_keys {k : FeatureKey} : v.contains k = true ↔ k ∈ v.keys := by
  rw [contains, ← Option.not_isNone, Bool.not_eq_true', Bool.eq_false_iff, ne_eq,
    Option.isNone_iff_eq_none, get?_eq_none_iff, not_not]

theorem within_empty : Within P (empty : SparseVector K) := by
  intro k hk
  cases hk

variable [Scalar K]

theorem contains_addAt {key k : FeatureKey} {x : K} :
    (v.addAt key x).contains k = true ↔ v.contains k = true ∨ k = key := by
  rw [contains, addAt, get?_set]
  split
  · rename_i h
    simp [h]
  · rename_i h
    rw [contains]
    exact ⟨Or.inl, fun hor => hor.resolve_right h⟩

theorem contains_foldl_addAt {f : FeatureKey × K → K} {pairs : List (FeatureKey × K)}
    {k : FeatureKey} : (pairs.foldl (fun v p => v.addAt p.1 (f p)) v).contains k = true ↔
      v.contains k = true ∨ k ∈ pairs.map (·.1) := by
  induction pairs generalizing v with
  | nil => simp
  | cons p pairs ih =>
    rw [List.foldl_cons, ih, contains_addAt, List.map_cons, List.mem_cons, or_assoc]

/-- A sum has the keys of its parts alone. -/
theorem contains_addTimes_iff {c : K} {k : FeatureKey} :
    (v.addTimes c w).contains k = true ↔ v.contains k = true ∨ w.contains k = true := by
  rw [addTimes, contains_foldl_addAt (f := fun p => c * p.2), contains_iff_mem_keys (v := w), keys]

theorem contains_ofPairs {pairs : List (FeatureKey × K)} {k : FeatureKey} :
    (ofPairs pairs).contains k = true ↔ k ∈ pairs.map (·.1) := by
  rw [ofPairs, contains_foldl_addAt (f := Prod.snd)]
  exact or_iff_right Bool.false_ne_true

theorem within_ofPairs {pairs : List (FeatureKey × K)} (h : ∀ p ∈ pairs, P p.1) :
    (ofPairs pairs).Within P := by
  intro k hk
  obtain ⟨p, hp, rfl⟩ := List.mem_map.1 (contains_ofPairs.1 hk)
  exact h p hp

theorem Within.addTimes (hv : v.Within P) (hw : w.Within P) (c : K) :
    (v.addTimes c w).Within P := by
  intro k hk
  exact (contains_addTimes_iff.1 hk).elim (hv k) (hw k)

theorem Within.copy (hv : v.Within P) : v.copy.Within P :=
  within_ofPairs fun p hp => hv p.1 (contains_of_mem hp)

theorem Within.scale (hv : v.Within P) (c : K) : (v.scale c).Within P := by
  refine within_ofPairs fun p hp => ?_
  obtain ⟨q, hq, rfl⟩ := List.mem_map.1 hp
  exact hv q.1 (contains_of_mem hq)

theorem Within.dropZeros (hv : v.Within P) (eps : K) : (v.dropZeros eps).Within P :=
  within_ofPairs fun p hp => hv p.1 (contains_of_mem (List.mem_filter.1 hp).1)

/-- Where zeros are dropped, the keys that are left have values. -/
theorem get_ne_zero_of_dropZeros {v : SparseVector Rat} {k : FeatureKey}
    (h : (v.dropZeros 0).contains k = true) : (v.dropZeros 0).get k ≠ 0 := by
  obtain ⟨p, hp, rfl⟩ := List.mem_map.1 (contains_ofPairs.1 h)
  obtain ⟨hp, hvalue⟩ := List.mem_filter.1 hp
  rw [get_dropZeros, get_of_mem hp]
  exact lt_abs_iff.1 hvalue

theorem Within.add (hv : v.Within P) (hw : w.Within P) : (v.add w).Within P :=
  hv.copy.addTimes hw 1

theorem Within.sub (hv : v.Within P) (hw : w.Within P) : (v.sub w).Within P :=
  hv.copy.addTimes hw (-1)

theorem within_sum {vs : List (SparseVector K)} (h : ∀ v ∈ vs, v.Within P) : (sum vs).Within P := by
  suffices hacc : ∀ acc : SparseVector K, acc.Within P →
      (vs.foldl (fun acc v => acc.addTimes 1 v) acc).Within P from hacc empty within_empty
  induction vs with
  | nil =>
    intro acc hw
    exact hw
  | cons v vs ih =>
    intro acc hw
    obtain ⟨hv, hvs⟩ := List.forall_mem_cons.1 h
    exact ih hvs _ (hw.addTimes hv 1)

theorem within_mean {vs : List (SparseVector K)} (h : ∀ v ∈ vs, v.Within P) :
    (mean vs).Within P := by
  rw [mean]
  split
  · exact within_empty
  · exact (within_sum h).scale _

theorem within_ofScores {pairs : List (FeatureKey × K)} (h : ∀ p ∈ pairs, P p.1)
    (hv : ofScores pairs = .ok v) : v.Within P := by
  obtain ⟨weighed, hweighed, rfl⟩ := map_eq_ok.1 hv
  refine within_ofPairs fun p hp => ?_
  obtain ⟨q, hq, hstep⟩ := exists_of_mem_mapM hweighed hp
  obtain ⟨x, -, rfl⟩ := map_eq_ok.1 hstep
  exact h q hq

end SparseVector

namespace Model

open SparseVector

variable {K : Type} [Scalar K] {m : Model K}

/-- Whether there is a weight for a key, or it is as short as the keys of rules and executions. -/
def Known (m : Model K) (k : FeatureKey) : Prop := m.theta.contains k = true ∨ k.length = 2

theorem within_entryFeatures (m : Model K) (e : Entry) : (m.entryFeatures e).Within m.Known := by
  refine within_sum fun v hv => ?_
  obtain ⟨f, -, rfl⟩ := List.mem_map.1 hv
  rw [LexicalFeatures.compute]
  split
  · rename_i hcontains
    refine within_ofPairs fun p hp => ?_
    rw [List.mem_singleton.1 hp]
    exact Or.inl hcontains
  · exact within_empty

theorem within_totalVector {P : FeatureKey → Prop} {vs : List (Except Fault (SparseVector K))}
    {v : SparseVector K} (h : totalVector vs = .ok v)
    (hvs : ∀ u, .ok u ∈ vs → u.Within P) : v.Within P := by
  obtain ⟨us, hus, rfl⟩ := map_eq_ok.1 h
  refine within_sum fun u hu => ?_
  obtain ⟨x, hx, rfl⟩ := exists_of_mem_mapM hus hu
  exact hvs u hx

theorem within_ruleFeatures {rule : RuleName} {v : SparseVector K}
    (h : m.ruleFeatures rule = .ok v) : v.Within m.Known := by
  refine within_totalVector h fun u hu => ?_
  obtain ⟨f, -, hf⟩ := List.mem_map.1 hu
  cases f with
  | usage name scale =>
    obtain ⟨x, -, hx⟩ := bind_eq_ok.1 hf
    refine within_ofScores (fun p hp => ?_) hx
    rw [List.mem_singleton.1 hp]
    exact Or.inr rfl
  | abstract => cases hf

theorem within_executionFeatures {result : Value} {v : SparseVector K}
    (h : m.executionFeatures result = .ok v) : v.Within m.Known := by
  refine within_totalVector h fun u hu => ?_
  obtain ⟨f, -, hf⟩ := List.mem_map.1 hu
  cases f with
  | emptyResult name scale =>
    rw [ExecutionFeatures.compute] at hf
    split at hf
    · obtain ⟨x, -, hx⟩ := bind_eq_ok.1 hf
      refine within_ofScores (fun p hp => ?_) hx
      rw [List.mem_singleton.1 hp]
      exact Or.inr rfl
    · obtain rfl := Except.ok.inj hf
      exact within_empty
  | abstract => cases hf

theorem within_featuresFrom {cells : List (Cell K)} {acc v : SparseVector K}
    (hacc : acc.Within m.Known) (h : m.featuresFrom cells acc = .ok v) : v.Within m.Known := by
  induction cells, acc using featuresFrom.induct m with
  | case1 acc =>
    rw [featuresFrom] at h
    obtain rfl := Except.ok.inj h
    exact hacc
  | case2 e s score full mark rest acc ih =>
    rw [featuresFrom] at h
    exact ih (hacc.addTimes (m.within_entryFeatures e) 1) h
  | case3 category rule children s score full mark rest acc fault hfault =>
    rw [featuresFrom, hfault] at h
    cases h
  | case4 category rule children s score full mark rest acc features hfeatures ih =>
    rw [featuresFrom, hfeatures] at h
    refine ih (hacc.addTimes (within_ruleFeatures hfeatures) 1) ?_
    rw [List.unattach_reverse, List.unattach_attach]
    exact h

theorem within_cellFeatures {c : Cell K} {v : SparseVector K} (h : m.cellFeatures c = .ok v) :
    v.Within m.Known :=
  within_featuresFrom within_empty h

end Model

variable {K : Type} [Scalar K] {m : Model K} {v : SparseVector K}

theorem Derivation.within_features {d : Derivation K} (h : d.features m = .ok v) :
    v.Within m.Known := by
  obtain ⟨vs, hvs, rfl⟩ := map_eq_ok.1 h
  refine SparseVector.within_mean fun u hu => ?_
  obtain ⟨c, -, hc⟩ := exists_of_mem_mapM hvs hu
  exact Model.within_cellFeatures hc

theorem JointParse.within_features {j : JointParse K} (h : j.features m = .ok v) :
    v.Within m.Known := by
  obtain ⟨base, hbase, h⟩ := bind_eq_ok.1 h
  obtain ⟨execution, hexecution, h⟩ := bind_eq_ok.1 h
  obtain rfl := Except.ok.inj h
  exact (Derivation.within_features hbase).add (Model.within_executionFeatures hexecution)

/-- The features of a parse have weights, or are features of rules and executions. -/
theorem Parse.within_features {q : Parse K} (h : q.features m = .ok v) : v.Within m.Known := by
  cases q with
  | derived d => exact Derivation.within_features h
  | joint j => exact JointParse.within_features h

end Categorial
