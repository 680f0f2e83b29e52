import Categorial.Model.Basic
import Categorial.Proofs.Collection.Gather
import Categorial.Proofs.Lexicon.Addition

/-!
What adding entries does to a model, whatever its weights are made of. Main statement: a model that
learned entries are added to keeps its entries, its feature sets and its weights, also where a
scorer fails on the way.
-/

namespace Categorial.Model

variable {K : Type} [Scalar K] {m m' m'' : Model K} {e : Entry} {es : List Entry} {k : FeatureKey}
  {w : K}

/-- What a feature set does with an entry: nothing if its key has a weight, and otherwise it gives
its start score to the key. -/
theorem cases_of_learn {f : LexicalFeatures} {theta theta' : SparseVector K}
    (h : f.learn e theta = .ok theta') :
    theta.contains (f.key e) = true ∧ theta' = theta ∨ theta.contains (f.key e) = false ∧
      ∃ start weight, f.start e = .ok start ∧ Scalar.weight start = .ok weight ∧
        theta' = theta.set (f.key e) weight := by
  rw [LexicalFeatures.learn] at h
  split at h
  · rename_i hold
    exact Or.inl ⟨hold, (Except.ok.inj h).symm⟩
  · rename_i hnew
    obtain ⟨start, hstart, h⟩ := bind_eq_ok.1 h
    obtain ⟨weight, hweight, h⟩ := bind_eq_ok.1 h
    exact Or.inr ⟨Bool.eq_false_iff.2 hnew, start, weight, hstart, hweight,
      (Except.ok.inj h).symm⟩

/-- A feature set gives no other weight to a key that has one. -/
theorem get?_of_learn {f : LexicalFeatures} {theta theta' : SparseVector K}
    (h : f.learn e theta = .ok theta') (hk : theta.get? k = some w) : theta'.get? k = some w := by
  rcases cases_of_learn h with ⟨-, rfl⟩ | ⟨hnew, start, weight, -, -, rfl⟩
  · exact hk
  · rw [SparseVector.get?_set, if_neg]
    · exact hk
    · rintro rfl
      rw [SparseVector.contains, hk] at hnew
      cases hnew

/-- A feature set gives a weight to no other key than that of the entry. -/
theorem get?_learn_of_ne {f : LexicalFeatures} {theta theta' : SparseVector K}
    (h : f.learn e theta = .ok theta') (hk : k ≠ f.key e) : theta'.get? k = theta.get? k := by
  rcases cases_of_learn h with ⟨-, rfl⟩ | ⟨-, start, weight, -, -, rfl⟩
  · rfl
  · rw [SparseVector.get?_set, if_neg hk]

theorem get?_learnWeights (fs : List LexicalFeatures) {theta : SparseVector K}
    (hk : theta.get? k = some w) : (learnWeights e fs theta).2.get? k = some w := by
  induction fs generalizing theta with
  | nil => exact hk
  | cons f fs ih =>
    rw [learnWeights]
    cases hlearn : f.learn e theta with
    | error fault => exact hk
    | ok theta' => exact ih (get?_of_learn hlearn hk)

theorem get?_learnWeights_of_ne {fs : List LexicalFeatures} (theta : SparseVector K)
    (hk : ∀ f ∈ fs, k ≠ f.key e) : (learnWeights e fs theta).2.get? k = theta.get? k := by
  induction fs generalizing theta with
  | nil => rfl
  | cons f fs ih =>
    rw [learnWeights]
    cases hlearn : f.learn e theta with
    | error fault => rfl
    | ok theta' =>
      rw [← get?_learn_of_ne hlearn (hk f List.mem_cons_self)]
      exact ih theta' fun g hg => hk g (List.mem_cons_of_mem f hg)

/-- Adding an entry that the model has changes nothing; another one is put into the lexicon, and its
keys get weights. -/
theorem addEntry_eq (m : Model K) (e : Entry) :
    m.addEntry e =
      if m.lexicon.contains e then (.ok false, m)
      else ((learnWeights e m.lexical m.theta).1.map fun _ => true,
        { m with
          lexicon := m.lexicon.insert e
          theta := (learnWeights e m.lexical m.theta).2 }) := by
  rw [addEntry, Lexicon.insert, Lexicon.add]
  split <;> rfl

theorem lexicon_addEntry (m : Model K) (e : Entry) :
    (m.addEntry e).2.lexicon = m.lexicon.insert e := by
  rw [addEntry_eq]
  split
  · rename_i hold
    exact (Lexicon.insert_of_contains hold).symm
  · rfl

theorem new_of_addEntry {new : Bool} (h : (m.addEntry e).1 = .ok new) :
    new = !m.lexicon.contains e := by
  rw [addEntry_eq] at h
  split at h
  · rename_i hold
    rw [hold, ← Except.ok.inj h]
    rfl
  · rename_i hnew
    obtain ⟨-, -, rfl⟩ := map_eq_ok.1 h
    rw [Bool.eq_false_iff.2 hnew]
    rfl

/-- Whether a model keeps the entries, the feature sets and the weights of another one, and has
besides its entries only new ones that were learned. -/
structure Grown (old new : Model K) : Prop where
  lexicon : old.lexicon.Grown .learned new.lexicon
  lexical : new.lexical = old.lexical
  rules : new.rules = old.rules
  executions : new.executions = old.executions
  weights : ∀ k w, old.theta.get? k = some w → new.theta.get? k = some w

omit [Scalar K] in
theorem grown_refl (m : Model K) : m.Grown m :=
  ⟨Lexicon.grown_refl _ _, rfl, rfl, rfl, fun _ _ h => h⟩

omit [Scalar K] in
theorem Grown.trans (h : m.Grown m') (h' : m'.Grown m'') : m.Grown m'' where
  lexicon := h.lexicon.trans h'.lexicon
  lexical := h'.lexical.trans h.lexical
  rules := h'.rules.trans h.rules
  executions := h'.executions.trans h.executions
  weights k w hk := h'.weights k w (h.weights k w hk)

/-- A model that a learned entry is added to grows, also where a scorer fails on the way. -/
theorem grown_addEntry (m : Model K) (he : e.origin = .learned) : m.Grown (m.addEntry e).2 := by
  rw [addEntry_eq]
  split
  · exact grown_refl m
  · have hlexicon := Lexicon.grown_insert m.lexicon e
    rw [he] at hlexicon
    exact ⟨hlexicon, rfl, rfl, rfl, fun k w hk => get?_learnWeights m.lexical hk⟩

theorem addEntries_append (m : Model K) (es es' : List Entry) :
    m.addEntries (es ++ es') = (m.addEntries es).bind fun m' => m'.addEntries es' := by
  induction es generalizing m with
  | nil => rfl
  | cons e es ih =>
    rw [List.cons_append, addEntries, addEntries]
    cases m.addEntry e with
    | mk outcome m' =>
      cases outcome with
      | error fault => rfl
      | ok new => exact ih m'

theorem addEntries_singleton {new : Bool} (h : m.addEntry e = (.ok new, m')) :
    m.addEntries [e] = .ok m' := by
  rw [addEntries, h]
  rfl

theorem lexicon_addEntries (h : m.addEntries es = .ok m') :
    m'.lexicon = es.foldl Lexicon.insert m.lexicon := by
  induction es generalizing m with
  | nil =>
    obtain rfl := Except.ok.inj h
    rfl
  | cons e es ih =>
    rw [addEntries] at h
    split at h
    · cases h
    · rename_i new m₁ hadd
      rw [ih h, List.foldl_cons, ← lexicon_addEntry m e, hadd]

end Categorial.Model
