import Mathlib.Data.List.Nodup
import Categorial.Proofs.Collection.Gather
import Categorial.Proofs.Lexicon.Growth
import Categorial.Proofs.Model.Scores

/-!
Models that entries are added to. Main statements: what is added changes no weight that is there,
and a new weight is the start score of one of the entries; so the scores of rules and executions
stay, and so does the score of every entry that shares no key with an added entry that is not the
same.
-/

namespace Categorial

/-- Entries that are the same have the same score. -/
theorem Scorer.score_of_same {e e' : Entry} (h : e.same e' = true) (scorer : Scorer) :
    scorer.score e = scorer.score e' := by
  have hparts := h
  rw [Entry.same, Bool.and_eq_true, beq_iff_eq] at hparts
  obtain ⟨htokens, hsame⟩ := hparts
  have hcategory : ∀ c, e.category.same c = e'.category.same c := by
    intro c
    rw [Bool.eq_iff_iff]
    exact ⟨Category.same_trans (Category.same_symm hsame), Category.same_trans hsame⟩
  induction scorer with
  | uniform => rfl
  | length => rw [score, score, htokens]
  | scaled scale base ih => rw [score, score, ih]
  | skipping empty cost base ih => simp only [score, hcategory, ih]
  | custom scorer => exact scorer.score_of_same h
  | abstract => rfl
  | misplaced => rfl

namespace LexicalFeatures

/-- Entries that are the same have the same start score. -/
theorem start_of_same {e e' : Entry} (h : e.same e' = true) (f : LexicalFeatures) :
    (f.start e : Except Fault Rat) = f.start e' := by
  rw [start, start, Scorer.score_of_same h]

theorem name_of_key {f g : LexicalFeatures} {e e' : Entry} (h : f.key e = g.key e') :
    f.name = g.name :=
  (List.cons.inj h).1

end LexicalFeatures

namespace Model

/-- Results that are the same have the same score. -/
theorem scoreExecution_of_same {K : Type} [Scalar K] (m : Model K) {a b : Value}
    (h : a.same b = true) : m.scoreExecution a = m.scoreExecution b := by
  rw [scoreExecution, scoreExecution]
  congr 1
  refine List.map_congr_left ?_
  intro f _
  cases f with
  | abstract => rfl
  | emptyResult name scale =>
    simp only [ExecutionFeatures.score, ExecutionFeatures.compute,
      Value.isEmptyCollection_eq_of_same h]

variable {m m' m'' : Model Rat} {e e' : Entry} {es es' : List Entry}

/-- What adding some entries does to the weights: a weight stays, and a new one is the start score
that one of the feature sets gives to one of the entries. -/
def Extends (fs : List LexicalFeatures) (es : List Entry) (theta theta' : SparseVector Rat) :
    Prop :=
  ∀ k, theta'.get? k = theta.get? k ∨ theta.get? k = none ∧
    ∃ f ∈ fs, ∃ e ∈ es, k = f.key e ∧ ∃ w, f.start e = .ok w ∧ theta'.get? k = some w

theorem extends_refl (fs : List LexicalFeatures) (es : List Entry) (theta : SparseVector Rat) :
    Extends fs es theta theta :=
  fun _ => Or.inl rfl

theorem Extends.trans {fs : List LexicalFeatures} {theta theta' theta'' : SparseVector Rat}
    (h : Extends fs es theta theta') (h' : Extends fs es' theta' theta'') :
    Extends fs (es ++ es') theta theta'' := by
  intro k
  rcases h k with hk | ⟨hnone, f, hf, e, he, hkey, w, hw, hk⟩
  · rcases h' k with hk' | ⟨hnone, f, hf, e, he, hkey, w, hw, hk'⟩
    · exact Or.inl (hk'.trans hk)
    · exact Or.inr ⟨hk ▸ hnone, f, hf, e, List.mem_append_right _ he, hkey, w, hw, hk'⟩
  · rcases h' k with hk' | ⟨hnone', -⟩
    · exact Or.inr ⟨hnone, f, hf, e, List.mem_append_left _ he, hkey, w, hw, hk'.trans hk⟩
    · rw [hk] at hnone'
      cases hnone'

/-- A feature set gives its start score to an entry that it has no weight for. -/
theorem extends_learn {f : LexicalFeatures} {theta theta' : SparseVector Rat}
    (h : f.learn e theta = .ok theta') : Extends [f] [e] theta theta' := by
  rw [LexicalFeatures.learn] at h
  split at h
  · rw [← Except.ok.inj h]
    exact extends_refl _ _ _
  · rename_i hcontains
    obtain ⟨w, hstart, h⟩ := bind_eq_ok.1 h
    obtain rfl : theta.set (f.key e) w = theta' := Except.ok.inj h
    intro k
    rw [SparseVector.get?_set]
    by_cases hk : k = f.key e
    · have hnone : theta.get? k = none := by
        rwa [hk, ← Option.not_isSome_iff_eq_none]
      rw [if_pos hk]
      exact Or.inr ⟨hnone, f, List.mem_singleton_self f, e, List.mem_singleton_self e, hk, w,
        hstart, rfl⟩
    · rw [if_neg hk]
      exact Or.inl rfl

theorem Extends.mono {fs fs' : List LexicalFeatures} {theta theta' : SparseVector Rat}
    (h : Extends fs es theta theta') (hfs : fs ⊆ fs') (hes : es ⊆ es') :
    Extends fs' es' theta theta' := by
  intro k
  refine (h k).imp_right ?_
  rintro ⟨hnone, f, hf, e, he, hrest⟩
  exact ⟨hnone, f, hfs hf, e, hes he, hrest⟩

theorem extends_learnWeights {fs : List LexicalFeatures} {theta theta' : SparseVector Rat}
    (h : learnWeights e fs theta = (.ok (), theta')) : Extends fs [e] theta theta' := by
  induction fs generalizing theta with
  | nil =>
    rw [learnWeights] at h
    rw [← (Prod.mk.inj h).2]
    exact extends_refl _ _ _
  | cons f fs ih =>
    rw [learnWeights] at h
    cases hlearn : f.learn e theta with
    | error fault => simp [hlearn] at h
    | ok theta₁ =>
      rw [hlearn] at h
      have hfirst : Extends (f :: fs) [e] theta theta₁ :=
        (extends_learn hlearn).mono (by simp) (List.Subset.refl _)
      have hrest := (ih h).mono (List.subset_cons_self f fs) (List.Subset.refl _)
      exact (hfirst.trans hrest).mono (List.Subset.refl _) (by simp)

/-- What a model is after some entries were added to another one. -/
structure Learned (m m' : Model Rat) (es : List Entry) : Prop where
  lexical : m'.lexical = m.lexical
  rules : m'.rules = m.rules
  lexicon : m'.lexicon = es.foldl Lexicon.insert m.lexicon
  weights : Extends m.lexical es m.theta m'.theta

theorem learned_of_addEntry {b : Bool} (h : m.addEntry e = (.ok b, m')) : Learned m m' [e] := by
  rw [addEntry] at h
  dsimp only at h
  split at h
  · cases hweights : learnWeights e m.lexical m.theta with
    | mk outcome theta =>
      cases outcome with
      | error fault => simp [hweights, Except.map] at h
      | ok u =>
        rw [hweights] at h
        obtain ⟨-, rfl⟩ := Prod.mk.inj h
        exact ⟨rfl, rfl, rfl, extends_learnWeights hweights⟩
  · rename_i hold
    obtain ⟨-, rfl⟩ := Prod.mk.inj h
    refine ⟨rfl, rfl, ?_, extends_refl _ _ _⟩
    rw [List.foldl_cons, List.foldl_nil, Lexicon.insert]
    rw [Lexicon.add] at hold ⊢
    split
    · rfl
    · simp_all

theorem Learned.trans (h : Learned m m' es) (h' : Learned m' m'' es') :
    Learned m m'' (es ++ es') where
  lexical := h'.lexical.trans h.lexical
  rules := h'.rules.trans h.rules
  lexicon := by rw [h'.lexicon, h.lexicon, List.foldl_append]
  weights := h.weights.trans (h.lexical ▸ h'.weights)

theorem learned_of_addEntries (h : m.addEntries es = .ok m') : Learned m m' es := by
  induction es generalizing m with
  | nil =>
    obtain rfl := Except.ok.inj h
    exact ⟨rfl, rfl, rfl, extends_refl _ _ _⟩
  | cons e es ih =>
    rw [addEntries] at h
    split at h
    · cases h
    · rename_i b m₁ hadd
      exact (learned_of_addEntry hadd).trans (ih h)

/-- What a feature set makes of an entry that shares its key with no added entry but those that are
the same. -/
theorem Learned.score_eq (h : Learned m m' es) (hnames : (m.lexical.map (·.name)).Nodup)
    {f : LexicalFeatures} (hf : f ∈ m.lexical)
    (hapart : ∀ e ∈ es, f.key e = f.key e' → e.same e' = true) :
    f.score e' m'.theta = f.score e' m.theta := by
  rw [LexicalFeatures.score, LexicalFeatures.score]
  rcases h.weights (f.key e') with hkey | ⟨hnone, g, hg, e, he, hkey, w, hw, hnew⟩
  · rw [hkey]
  · obtain rfl : f = g :=
      List.inj_on_of_nodup_map hnames hf hg (LexicalFeatures.name_of_key hkey)
    rw [hnew, hnone, ← LexicalFeatures.start_of_same (hapart e he hkey.symm), hw]

/-- The score of an entry that shares its keys with no added entry but those that are the same. -/
theorem Learned.scoreEntry_eq (h : Learned m m' es) (hnames : (m.lexical.map (·.name)).Nodup)
    (hapart : ∀ f ∈ m.lexical, ∀ e ∈ es, f.key e = f.key e' → e.same e' = true) :
    m'.scoreEntry e' = m.scoreEntry e' := by
  rw [scoreEntry, scoreEntry, h.lexical]
  congr 1
  refine List.map_congr_left ?_
  intro f hf
  exact h.score_eq hnames hf (hapart f hf)

/-- Entries that are the same and share their keys have the same score. -/
theorem scoreEntry_of_same (h : e.same e' = true) (hkeys : ∀ f ∈ m.lexical, f.key e = f.key e') :
    m.scoreEntry e = m.scoreEntry e' := by
  rw [scoreEntry, scoreEntry]
  congr 1
  refine List.map_congr_left ?_
  intro f hf
  rw [LexicalFeatures.score, LexicalFeatures.score, hkeys f hf, LexicalFeatures.start_of_same h]

/-- The weight of a key of two parts stays, for it is no key of an entry; and so does the product of
the weights with a vector of this key alone. -/
theorem Learned.dot_eq (h : Learned m m' es) (name part : String) (scale : Except Fault Rat) :
    (scale.bind fun x => SparseVector.ofScores [([name, part], x)]).map m'.theta.dot =
      (scale.bind fun x => SparseVector.ofScores [([name, part], x)]).map m.theta.dot := by
  have hget : m'.theta.get [name, part] = m.theta.get [name, part] := by
    rcases h.weights [name, part] with hkey | ⟨-, f, -, e, -, hkey, -⟩
    · rw [SparseVector.get, hkey, SparseVector.get]
    · simp [LexicalFeatures.key] at hkey
  cases scale with
  | error fault => rfl
  | ok x =>
    have hvector : SparseVector.ofScores [([name, part], x)] =
        .ok (.ofPairs [([name, part], x)]) := rfl
    rw [Except.bind, hvector, Except.map, Except.map, SparseVector.dot_single,
      SparseVector.dot_single, hget]

/-- The scores of rules stay. -/
theorem Learned.scoreRule_eq (h : Learned m m' es) (rule : RuleName) :
    m'.scoreRule rule = m.scoreRule rule := by
  rw [scoreRule, scoreRule, h.rules]
  congr 1
  refine List.map_congr_left ?_
  intro f _
  cases f with
  | abstract => rfl
  | usage name scale => exact h.dot_eq name rule.text scale

/-- The scores of executions stay, if the feature sets for them do. -/
theorem Learned.scoreExecution_eq (h : Learned m m' es) (hexecutions : m'.executions = m.executions)
    (result : Value) : m'.scoreExecution result = m.scoreExecution result := by
  rw [scoreExecution, scoreExecution, hexecutions]
  congr 1
  refine List.map_congr_left ?_
  intro f _
  cases f with
  | abstract => rfl
  | emptyResult name scale =>
    rw [ExecutionFeatures.score, ExecutionFeatures.score, ExecutionFeatures.compute]
    split
    · exact h.dot_eq name "EMPTY_RESULT" scale
    · rw [Except.map, Except.map, SparseVector.dot_empty, SparseVector.dot_empty]

end Model

end Categorial
