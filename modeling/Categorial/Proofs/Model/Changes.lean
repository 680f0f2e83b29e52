import Categorial.Proofs.Lexicon.Addition
import Categorial.Proofs.Model.Addition
import Categorial.Proofs.Model.Scores

/-!
What happens to a model over time: entries are added, and weights are moved along vectors. A weight
that is there stays a weight through all of it. Main statement: every entry that is stored has its
weights, apart from those whose addition failed; such an entry stays in the lexicon with the weights
of the feature sets before the one that failed, and adding it again changes nothing.
-/

namespace Categorial

/-- A change of a model: an entry is added, or the weights move. -/
inductive Change (K : Type) where
  | added (e : Entry)
  | moved (step : K) (delta : SparseVector K)

namespace Model

variable {K : Type} [Scalar K] {m : Model K} {e : Entry} {k : FeatureKey}

/-- The model after a change. An addition that fails leaves what was done so far. -/
def change (m : Model K) : Change K → Model K
  | .added e => (m.addEntry e).2
  | .moved step delta => { m with theta := m.theta.addTimes step delta }

/-- The model after some changes. -/
def after (m : Model K) (changes : List (Change K)) : Model K := changes.foldl change m

theorem after_nil (m : Model K) : m.after [] = m := rfl

theorem after_cons (m : Model K) (c : Change K) (changes : List (Change K)) :
    m.after (c :: changes) = (m.change c).after changes := rfl

theorem after_append (m : Model K) (changes changes' : List (Change K)) :
    m.after (changes ++ changes') = (m.after changes).after changes' := List.foldl_append

theorem after_concat (m : Model K) (changes : List (Change K)) (c : Change K) :
    m.after (changes ++ [c]) = (m.after changes).change c := after_append m changes [c]

/-! What changes leave as it is. -/

theorem lexical_change (m : Model K) (c : Change K) : (m.change c).lexical = m.lexical := by
  cases c with
  | added e =>
    rw [change, addEntry_eq]
    split <;> rfl
  | moved step delta => rfl

theorem lexical_after (m : Model K) (changes : List (Change K)) :
    (m.after changes).lexical = m.lexical := by
  induction changes generalizing m with
  | nil => rfl
  | cons c changes ih => rw [after_cons, ih, lexical_change]

theorem contains_change (c : Change K) (h : m.theta.contains k = true) :
    (m.change c).theta.contains k = true := by
  cases c with
  | added e =>
    obtain ⟨w, hw⟩ := Option.isSome_iff_exists.1 h
    rw [change, addEntry_eq]
    split
    · exact h
    · exact Option.isSome_iff_exists.2 ⟨w, get?_learnWeights m.lexical hw⟩
  | moved step delta => exact SparseVector.contains_addTimes h

theorem has_change (c : Change K) (h : m.lexicon.contains e = true) :
    (m.change c).lexicon.contains e = true := by
  cases c with
  | added e' =>
    rw [change, lexicon_addEntry, Lexicon.contains_insert]
    exact Or.inl h
  | moved step delta => exact h

/-- An entry that is stored stays so. -/
theorem has_after (changes : List (Change K)) (h : m.lexicon.contains e = true) :
    (m.after changes).lexicon.contains e = true := by
  induction changes generalizing m with
  | nil => exact h
  | cons c changes ih => exact ih (has_change c h)

theorem Weighs.change (c : Change K) (h : m.Weighs e) : (m.change c).Weighs e := by
  intro f hf
  rw [lexical_change] at hf
  exact contains_change c (h f hf)

/-! The weights that an added entry gets. -/

theorem contains_of_learn {f : LexicalFeatures} {theta theta' : SparseVector K}
    (h : f.learn e theta = .ok theta') : theta'.contains (f.key e) = true := by
  rcases cases_of_learn h with ⟨hold, rfl⟩ | ⟨-, start, weight, -, -, rfl⟩
  · exact hold
  · rw [SparseVector.contains, SparseVector.get?_set, if_pos rfl]
    rfl

/-- A feature set that fails has no weight for the entry. -/
theorem not_contains_of_learn {f : LexicalFeatures} {theta : SparseVector K} {fault : Fault}
    (h : f.learn e theta = .error fault) : theta.contains (f.key e) = false := by
  rw [LexicalFeatures.learn] at h
  split at h
  · cases h
  · rename_i hnew
    exact Bool.eq_false_iff.2 hnew

theorem contains_of_learnWeights {fs : List LexicalFeatures} {theta theta' : SparseVector K}
    (h : learnWeights e fs theta = (.ok (), theta')) :
    ∀ f ∈ fs, theta'.contains (f.key e) = true := by
  induction fs generalizing theta with
  | nil => exact fun f hf => absurd hf List.not_mem_nil
  | cons f fs ih =>
    rw [learnWeights] at h
    cases hlearn : f.learn e theta with
    | error fault =>
      rw [hlearn] at h
      cases h
    | ok theta₁ =>
      rw [hlearn] at h
      intro g hg
      rcases List.mem_cons.1 hg with rfl | hg
      · obtain ⟨w, hw⟩ := Option.isSome_iff_exists.1 (contains_of_learn hlearn)
        have hrest : (learnWeights e fs theta₁).2.get? (g.key e) = some w := get?_learnWeights fs hw
        have hleft : (learnWeights e fs theta₁).2 = theta' := congrArg Prod.snd h
        rw [hleft] at hrest
        exact Option.isSome_iff_exists.2 ⟨w, hrest⟩
      · exact ih h g hg

/-- Feature sets that fail together: those before the first one that fails have given their weights,
and the weights are as these left them. -/
theorem learnWeights_error {fs : List LexicalFeatures} {theta theta' : SparseVector K}
    {fault : Fault} (h : learnWeights e fs theta = (.error fault, theta')) :
    ∃ done f rest, fs = done ++ f :: rest ∧ learnWeights e done theta = (.ok (), theta') ∧
      f.learn e theta' = .error fault := by
  induction fs generalizing theta with
  | nil => cases h
  | cons f fs ih =>
    rw [learnWeights] at h
    cases hlearn : f.learn e theta with
    | error fault' =>
      rw [hlearn] at h
      obtain ⟨hfault, rfl⟩ := Prod.mk.inj h
      obtain rfl := Except.error.inj hfault
      exact ⟨[], f, fs, rfl, rfl, hlearn⟩
    | ok theta₁ =>
      rw [hlearn] at h
      obtain ⟨done, g, rest, rfl, hdone, hfailed⟩ := ih h
      refine ⟨f :: done, g, rest, rfl, ?_, hfailed⟩
      rw [learnWeights, hlearn]
      exact hdone

/-- An entry that was added, or was there with its weights, has its weights. -/
theorem weighs_of_addEntry {new : Bool} (h : (m.addEntry e).1 = .ok new)
    (hold : m.lexicon.contains e = false) : (m.addEntry e).2.Weighs e := by
  rw [addEntry_eq, hold, if_neg Bool.false_ne_true] at h ⊢
  obtain ⟨⟨⟩, hweights, -⟩ := map_eq_ok.1 h
  exact contains_of_learnWeights (Prod.ext hweights rfl)

theorem weighs_of_addEntries {m' : Model K} {es : List Entry} (h : m.addEntries es = .ok m')
    (hstart : ∀ e ∈ m.lexicon.entries, m.Weighs e) : ∀ e ∈ m'.lexicon.entries, m'.Weighs e := by
  induction es generalizing m with
  | nil =>
    obtain rfl := Except.ok.inj h
    exact hstart
  | cons x es ih =>
    rw [addEntries] at h
    split at h
    · cases h
    · rename_i new m₁ hadd
      refine ih h fun e he => ?_
      have hm₁ : m₁ = (m.addEntry x).2 := by rw [hadd]
      rw [hm₁, lexicon_addEntry, Lexicon.mem_entries_insert] at he
      rw [hm₁]
      rcases he with he | ⟨rfl, hnew⟩
      · exact (hstart e he).change (.added x)
      · exact weighs_of_addEntry (congrArg Prod.fst hadd) hnew

/-- The entries of a model that was made of parts have their weights. -/
theorem weighs_of_create {es : List Entry} {lexical : List LexicalFeatures}
    {rules : List (RuleFeatures K)} {executions : List (ExecutionFeatures K)}
    {theta : SparseVector K} (h : create es lexical rules executions theta = .ok m) :
    ∀ e ∈ m.lexicon.entries, m.Weighs e :=
  weighs_of_addEntries h fun _ he => absurd he List.not_mem_nil

/-- An addition that fails: the entry was new and is stored now, and it has the weights of the
feature sets before the one that failed. -/
theorem addEntry_error {fault : Fault} {left : Model K} (h : m.addEntry e = (.error fault, left)) :
    m.lexicon.contains e = false ∧ left.lexicon = m.lexicon.insert e ∧
      ∃ done f rest, m.lexical = done ++ f :: rest ∧
        learnWeights e done m.theta = (.ok (), left.theta) ∧
          left.theta.contains (f.key e) = false := by
  rw [addEntry_eq] at h
  split at h
  · cases h
  · rename_i hnew
    obtain ⟨houtcome, rfl⟩ := Prod.mk.inj h
    cases hweights : learnWeights e m.lexical m.theta with
    | mk outcome theta =>
      rw [hweights] at houtcome
      cases outcome with
      | ok u => cases houtcome
      | error fault' =>
        obtain ⟨done, f, rest, hsets, hdone, hfailed⟩ := learnWeights_error hweights
        exact ⟨Bool.eq_false_iff.2 hnew, rfl, done, f, rest, hsets, hdone,
          not_contains_of_learn hfailed⟩

/-- Whether the addition of an entry is among some changes and failed. -/
def Failed (m : Model K) (changes : List (Change K)) (e : Entry) : Prop :=
  ∃ before behind fault, changes = before ++ .added e :: behind ∧
    ((m.after before).addEntry e).1 = .error fault

theorem Failed.concat {changes : List (Change K)} (h : m.Failed changes e) (c : Change K) :
    m.Failed (changes ++ [c]) e := by
  obtain ⟨before, behind, fault, rfl, hfault⟩ := h
  exact ⟨before, behind ++ [c], fault, by rw [List.append_assoc, List.cons_append], hfault⟩

/-- Adding an entry that is stored does nothing. -/
theorem addEntry_of_contains (h : m.lexicon.contains e = true) : m.addEntry e = (.ok false, m) := by
  rw [addEntry_eq, if_pos h]

/-- After any changes of a model, every stored entry has its weights, unless its own addition failed
or it was stored without them from the start. An addition that fails does not undo what it did: the
entry stays in the lexicon, with the weights of the feature sets before the one that failed and
without a weight of that one, and whatever is changed afterwards, adding the entry again has no
effect. -/
theorem failed_addition_stays (m : Model K) (changes : List (Change K)) :
    (∀ e ∈ (m.after changes).lexicon.entries, (m.after changes).Weighs e ∨
        m.Failed changes e ∨ e ∈ m.lexicon.entries ∧ ¬ m.Weighs e) ∧
      ∀ e fault left, (m.after changes).addEntry e = (.error fault, left) →
        (m.after changes).lexicon.contains e = false ∧
        left.lexicon = (m.after changes).lexicon.insert e ∧
        (∃ done f rest, m.lexical = done ++ f :: rest ∧
          learnWeights e done (m.after changes).theta = (.ok (), left.theta) ∧
            left.theta.contains (f.key e) = false) ∧
        ∀ later : List (Change K),
          (left.after later).addEntry e = (.ok false, left.after later) := by
  constructor
  · -- from the back: whatever the last change stores is all that is new about the entries
    induction changes using List.reverseRecOn with
    | nil => exact fun e he => (em (m.Weighs e)).imp_right fun h => Or.inr ⟨he, h⟩
    | append_singleton changes c ih =>
      intro e he
      rw [after_concat] at he ⊢
      have hkept : ∀ e ∈ (m.after changes).lexicon.entries,
          ((m.after changes).change c).Weighs e ∨ m.Failed (changes ++ [c]) e ∨
            e ∈ m.lexicon.entries ∧ ¬ m.Weighs e :=
        fun e he => (ih e he).imp (Weighs.change c) (Or.imp_left fun h => h.concat c)
      cases c with
      | moved step delta => exact hkept e he
      | added x =>
        rw [change, lexicon_addEntry, Lexicon.mem_entries_insert] at he
        rcases he with he | ⟨rfl, hnew⟩
        · exact hkept e he
        · cases hadd : ((m.after changes).addEntry e).1 with
          | ok new => exact Or.inl (weighs_of_addEntry hadd hnew)
          | error fault => exact Or.inr (Or.inl ⟨changes, [], fault, rfl, hadd⟩)
  · intro e fault left h
    obtain ⟨hnew, hlexicon, hweights⟩ := addEntry_error h
    rw [lexical_after] at hweights
    refine ⟨hnew, hlexicon, hweights, fun later => addEntry_of_contains (has_after later ?_)⟩
    rw [hlexicon, Lexicon.contains_insert]
    exact Or.inr (Entry.same_refl e)

/-- An entry for the token `w`. -/
def wordEntry : Entry := ⟨["w"], ⟨some (.primitive "N"), .text "x"⟩, .fixed, []⟩

/-- A model without entries whose second feature set starts them with scores that are too large for
weights. -/
def steepModel : Model Number :=
  ⟨.empty, [⟨"A", .uniform (.int 0)⟩, ⟨"B", .length (.int (2 ^ 1024 : Nat)) (.int 1)⟩], [], [],
    .empty⟩

/-- An attempt to add the entry to this model. -/
def steepRun : Except Fault Bool × Model Number := steepModel.addEntry wordEntry

/-- The weight of the first feature set is there then, and stays all that the entry gets. -/
theorem steepRun_stays : steepRun.1 = .error .tooLarge ∧
    (∃ done f rest, steepModel.lexical = done ++ f :: rest ∧
      learnWeights wordEntry done steepModel.theta = (.ok (), steepRun.2.theta) ∧
        steepRun.2.theta.contains (f.key wordEntry) = false) ∧
    (steepRun.2.after [.added wordEntry]).addEntry wordEntry =
      (.ok false, steepRun.2.after [.added wordEntry]) := by
  have hfault : steepRun.1 = .error .tooLarge := by decide +kernel
  have hadd : (steepModel.after []).addEntry wordEntry = (.error .tooLarge, steepRun.2) := by
    rw [after_nil, ← hfault, ← steepRun]
  obtain ⟨-, -, hweights, hlater⟩ := (failed_addition_stays steepModel []).2 _ _ _ hadd
  rw [after_nil] at hweights
  exact ⟨hfault, hweights, hlater [.added wordEntry]⟩

/-- The attempt fails, and leaves the entry stored with one of its two weights; a second attempt
gives it no other. -/
theorem steepRun_not_undone : steepRun.1 = .error .tooLarge ∧
    steepModel.lexicon.contains wordEntry = false ∧
    steepRun.2.lexicon.contains wordEntry = true ∧
    steepModel.theta.size = 0 ∧ steepRun.2.theta.size = 1 ∧ ¬ steepRun.2.Weighs wordEntry ∧
    (steepRun.2.addEntry wordEntry).1 = .ok false ∧
    ¬ (steepRun.2.addEntry wordEntry).2.Weighs wordEntry := by
  decide +kernel

end Model

end Categorial
