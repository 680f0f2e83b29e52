import Categorial.Proofs.Lexicon.Rebuilding
import Categorial.Proofs.Model.Changes
import Categorial.Proofs.Model.Copies
import Categorial.Proofs.Model.Support
import Categorial.Proofs.Number.Zeros

/-!
Models that are made anew of their own parts. Every stored entry has its weights, so nothing is left
to learn when the entries are added again, one token sequence after the other. Main statement: a
model that is made of the entries, the feature sets and a copy of the weights of another one, which
came to be without a fault, has the same lexicon and reads as the other one does.
-/

namespace Categorial.Model

open OrderedScalar (value?)

variable {K : Type} [Scalar K] {m : Model K} {e : Entry} {es : List Entry}

/-- Whether a model was made of parts, after which entries were added and weights moved, all without
a fault. -/
inductive Reached : Model K → Prop
  | made {es : List Entry} {lexical : List LexicalFeatures} {rules : List (RuleFeatures K)}
      {executions : List (ExecutionFeatures K)} {theta : SparseVector K} {m : Model K}
      (h : create es lexical rules executions theta = .ok m) : Reached m
  | add {m m' : Model K} {e : Entry} {new : Bool} (h : Reached m)
      (hadd : m.addEntry e = (.ok new, m')) : Reached m'
  | move {m : Model K} (h : Reached m) (step : K) (delta : SparseVector K) :
      Reached (m.change (.moved step delta))

/-- The stored entries of a model that came to be without a fault have their weights. -/
theorem Reached.weighs (h : m.Reached) : ∀ e ∈ m.lexicon.entries, m.Weighs e := by
  induction h with
  | made h => exact weighs_of_create h
  | add _ hadd ih => exact weighs_of_addEntries (addEntries_singleton hadd) ih
  | move _ step delta ih => exact fun e he => (ih e he).change (.moved step delta)

/-- Feature sets that have weights for an entry learn nothing from it. -/
theorem learnWeights_of_contains {fs : List LexicalFeatures} {theta : SparseVector K}
    (h : ∀ f ∈ fs, theta.contains (f.key e) = true) :
    learnWeights e fs theta = (.ok (), theta) := by
  induction fs with
  | nil => rfl
  | cons f fs ih =>
    have hlearn : f.learn e theta = .ok theta := by
      rw [LexicalFeatures.learn, if_pos (h f List.mem_cons_self)]
    rw [learnWeights, hlearn]
    exact ih fun g hg => h g (List.mem_cons_of_mem f hg)

theorem addEntry_of_weighs (h : m.Weighs e) :
    ∃ new, m.addEntry e = (.ok new, { m with lexicon := m.lexicon.insert e }) := by
  rw [addEntry_eq, learnWeights_of_contains h]
  split
  · rename_i hold
    exact ⟨false, by rw [Lexicon.insert_of_contains hold]⟩
  · exact ⟨true, rfl⟩

/-- Entries that have their weights are put into the lexicon, and nothing else changes. -/
theorem addEntries_of_weighs (h : ∀ e ∈ es, m.Weighs e) :
    m.addEntries es = .ok { m with lexicon := es.foldl Lexicon.insert m.lexicon } := by
  induction es generalizing m with
  | nil => rfl
  | cons e es ih =>
    obtain ⟨new, hadd⟩ := addEntry_of_weighs (h e List.mem_cons_self)
    rw [addEntries, hadd]
    exact ih fun x hx => h x (List.mem_cons_of_mem e hx)

/-- The entries of a model that came to be without a fault, and its feature sets and weights, make
the model. The weights may be those of any vector with the same keys. -/
theorem create_of_reached (h : m.Reached) {theta : SparseVector K}
    (hkeys : theta.keys = m.theta.keys) :
    create m.lexicon.entries m.lexical m.rules m.executions theta =
      .ok { m with theta := theta } := by
  have hweighs : ∀ e ∈ m.lexicon.entries,
      (⟨.empty, m.lexical, m.rules, m.executions, theta⟩ : Model K).Weighs e := by
    intro e he f hf
    rw [SparseVector.contains_iff_mem_keys, hkeys, ← SparseVector.contains_iff_mem_keys]
    exact h.weighs e he f hf
  rw [create, addEntries_of_weighs hweighs, Lexicon.foldl_insert_entries]

/-- Whether a model has the lexicon and the feature sets of another one and the same keys in the
same order, the same weights, scores and features. -/
structure ReadsAs [OrderedScalar K] (m m' : Model K) : Prop where
  lexicon : m.lexicon = m'.lexicon
  lexical : m.lexical = m'.lexical
  rules : m.rules = m'.rules
  executions : m.executions = m'.executions
  keys : m.theta.keys = m'.theta.keys
  weights : ∀ k, (m.theta.get? k).map value? = (m'.theta.get? k).map value?
  scoreEntry : ∀ e, (m.scoreEntry e).map value? = (m'.scoreEntry e).map value?
  scoreRule : ∀ rule, (m.scoreRule rule).map value? = (m'.scoreRule rule).map value?
  scoreExecution : ∀ result,
    (m.scoreExecution result).map value? = (m'.scoreExecution result).map value?
  entryFeatures : ∀ e, m.entryFeatures e = m'.entryFeatures e
  ruleFeatures : ∀ rule, m.ruleFeatures rule = m'.ruleFeatures rule
  executionFeatures : ∀ result, m.executionFeatures result = m'.executionFeatures result

/-- A model that is made of the parts of one that came to be without a fault is made without a fault
too. It keeps the copied weights as they are, and reads as the other one: it has the same lexicon,
the same keys and weights, and the same scores and features for every entry, rule and execution. -/
theorem rebuilt_reads_as [OrderedScalar K] [TolerantScalar K] (h : m.Reached) :
    ∃ m', create m.lexicon.entries m.lexical m.rules m.executions m.theta.copy = .ok m' ∧
      m'.theta = m.theta.copy ∧ m'.ReadsAs m := by
  have halike := SparseVector.copy_alike m.theta
  refine ⟨_, create_of_reached h m.theta.keys_copy, rfl, ?_⟩
  exact {
    lexicon := rfl
    lexical := rfl
    rules := rfl
    executions := rfl
    keys := m.theta.keys_copy
    weights := halike.value?_eq
    scoreEntry := fun e => (scoreEntry_alike halike e).value?_eq
    scoreRule := fun rule => (scoreRule_alike halike rule).value?_eq
    scoreExecution := fun result => (scoreExecution_alike halike result).value?_eq
    entryFeatures := entryFeatures_of_alike halike
    ruleFeatures := fun _ => rfl
    executionFeatures := fun _ => rfl }

/-- An entry for a token, of a primitive type. -/
def typedEntry (token type : String) : Entry :=
  ⟨[token], ⟨some (.primitive type), .text token⟩, .fixed, []⟩

/-- A model without entries, one of whose feature sets starts them with a negative zero. -/
def signedModel : Model Number :=
  ⟨.empty, [⟨"LEX", .uniform (.real (-0.0))⟩, ⟨"LEN", .length (.int 1) (.int 1)⟩],
    [.usage "RULE" (.ok (.int 1))], [.emptyResult "EXEC" (.ok (.int 1))], .empty⟩

/-- The model after entries for `w`, for `v` and again for `w` were added and a weight was moved. -/
def signedRun : Model Number :=
  signedModel.after [.added (typedEntry "w" "N"), .added (typedEntry "v" "N"),
    .added (typedEntry "w" "NP"), .moved (.real 0.5) (.ofPairs [(["RULE", ">apply"], .real 1.0)])]

theorem reached_signedRun : signedRun.Reached := by
  have hadd : ∀ {m : Model Number} {e : Entry}, (m.addEntry e).1 = .ok true →
      m.Reached → (m.change (.added e)).Reached :=
    fun hnew h => .add h (Prod.ext hnew rfl)
  have hcreate : create [] signedModel.lexical signedModel.rules signedModel.executions .empty =
      .ok signedModel := rfl
  have hmade : signedModel.Reached := .made hcreate
  have hfirst := hadd (e := typedEntry "w" "N") (by decide +kernel) hmade
  have hsecond := hadd (e := typedEntry "v" "N") (by decide +kernel) hfirst
  have hthird := hadd (e := typedEntry "w" "NP") (by decide +kernel) hsecond
  exact hthird.move _ _

/-- This model is made again of its entries, the second one for `w` before the one for `v`. -/
theorem signedRun_reads_as : signedRun.Reached ∧
    signedRun.lexicon.entries.map (·.tokens) = [["w"], ["w"], ["v"]] ∧
    ∃ m', create signedRun.lexicon.entries signedRun.lexical signedRun.rules signedRun.executions
        signedRun.theta.copy = .ok m' ∧ m'.theta = signedRun.theta.copy ∧ m'.ReadsAs signedRun :=
  ⟨reached_signedRun, by decide +kernel, rebuilt_reads_as reached_signedRun⟩

end Categorial.Model
