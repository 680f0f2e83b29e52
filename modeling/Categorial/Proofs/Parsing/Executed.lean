import Categorial.Parsing.Analyzer
import Categorial.Proofs.Meaning.Equality
import Categorial.Proofs.Model.Growth

/-!
The parses of an analysis: its derivations, or those of them that an executor gives a result to.
Main statement: a derivation that has the category of another one and no smaller score gives a parse
with an equal result and no smaller score, if the executor gives equal results to equal meanings.
-/

namespace Categorial

/-- Whether an executor gives equal results to equal meanings. -/
def Executor.Coherent (executor : Executor) (state : Value) : Prop :=
  ∀ v w a, v.same w = true → (executor v state).result = .ok a →
    ∃ b, (executor w state).result = .ok b ∧ a.same b = true

namespace JointParse

variable {K : Type} {executor : Executor} {state : Value}

theorem execute_eq_some {d : Derivation K} {v : Value} :
    (execute executor state d).result = .ok (some v) ↔
      d.meaning.isNone = false ∧ (executor d.meaning state).result = .ok v ∧ v.isNone = false := by
  rw [execute]
  cases d.meaning.isNone with
  | true => simp
  | false =>
    dsimp only
    generalize executor d.meaning state = run
    obtain ⟨notes, outcome | outcome⟩ := run
    · by_cases h : outcome.kind.coveredBy [.execution] = true <;> simp [h]
    · cases h : outcome.isNone with
      | true =>
        simp only [Bool.false_eq_true, if_false, h, if_true, Except.ok.injEq, reduceCtorEq,
          false_iff, not_and, true_and]
        rintro rfl
        simp [h]
      | false =>
        simp only [Bool.false_eq_true, if_false, h, Except.ok.injEq, Option.some.injEq, true_and]
        refine ⟨?_, And.left⟩
        rintro rfl
        exact ⟨rfl, h⟩

/-- Derivations with equal meanings have equal results. -/
theorem execute_of_same (hexecutor : executor.Coherent state) {d d' : Derivation K}
    (hsame : d.meaning.same d'.meaning = true) {v : Value}
    (h : (execute executor state d).result = .ok (some v)) :
    ∃ w, (execute executor state d').result = .ok (some w) ∧ v.same w = true := by
  obtain ⟨hmeaning, houtcome, hv⟩ := execute_eq_some.1 h
  obtain ⟨w, houtcome', hvw⟩ := hexecutor _ _ _ hsame houtcome
  rw [Value.isNone_eq_of_same hsame] at hmeaning
  rw [Value.isNone_eq_of_same hvw] at hv
  exact ⟨w, execute_eq_some.2 ⟨hmeaning, houtcome', hv⟩, hvw⟩

variable [Scalar K] {m : Model K}

/-- The executed derivations of a list are those that have a result. -/
theorem mem_executeAll {ds : List (Derivation K)} {js : List (JointParse K)}
    (h : (executeAll m executor state ds).result = .ok js) {j : JointParse K} :
    j ∈ js ↔ ∃ d ∈ ds, ∃ v, (execute executor state d).result = .ok (some v) ∧
      create m d v = .ok j := by
  induction ds generalizing js with
  | nil =>
    obtain rfl := Except.ok.inj h
    simp
  | cons d ds ih =>
    rw [executeAll, Traced.result_bind] at h
    obtain ⟨result, hresult, h⟩ := bind_eq_ok.1 h
    cases result with
    | none => simp [ih h, hresult]
    | some v =>
      simp only [Traced.result_bind, Traced.result_ofExcept] at h
      obtain ⟨first, hfirst, h⟩ := bind_eq_ok.1 h
      obtain ⟨rest, hrest, h⟩ := bind_eq_ok.1 h
      obtain rfl := Except.ok.inj h
      simp [ih hrest, hresult, hfirst, eq_comm]

theorem create_eq_ok {d : Derivation K} {v : Value} {j : JointParse K} (h : create m d v = .ok j) :
    ∃ score, m.scoreExecution v = .ok score ∧ j = ⟨d, v, score⟩ := by
  rw [create] at h
  obtain ⟨score, hscore, h⟩ := bind_eq_ok.1 h
  obtain ⟨-, -, h⟩ := bind_eq_ok.1 h
  exact ⟨score, hscore, (Except.ok.inj h).symm⟩

theorem create_ok {m : Model Rat} {d : Derivation Rat} {v : Value} {score : Rat}
    (h : m.scoreExecution v = .ok score) : create m d v = .ok ⟨d, v, score⟩ := by
  rw [create, h]
  rfl

end JointParse

namespace Analyzer

section

variable {K : Type} [Scalar K] {a : Analyzer K} {m : Model K} {state : Value} {d : Derivation K}
  {q : Parse K}

/-- Whether a parse is what an analyzer makes of a derivation. -/
def Gives (a : Analyzer K) (m : Model K) (state : Value) (d : Derivation K) (q : Parse K) : Prop :=
  match a.executor with
  | none => q = .derived d
  | some executor => ∃ v, (JointParse.execute executor state d).result = .ok (some v) ∧
      ∃ j, JointParse.create m d v = .ok j ∧ q = .joint j

theorem Gives.base_eq (h : a.Gives m state d q) : q.base = d := by
  rw [Gives] at h
  split at h
  · rw [h, Parse.base]
  · obtain ⟨v, -, j, hj, rfl⟩ := h
    obtain ⟨score, -, rfl⟩ := JointParse.create_eq_ok hj
    rfl

/-- The parses of an analysis are what the analyzer makes of the derivations of its chart. -/
theorem parses_of_analyze {tokens : List String} {options : ParseOptions} {analysis : Analysis K}
    (h : (a.analyze m tokens state options).result = .ok analysis) :
    (a.parser.chart m tokens options).result = .ok analysis.chart ∧
      ∃ ds, Derivation.ofChart analysis.chart = .ok ds ∧
        ∀ q, q ∈ analysis.parses ↔ ∃ d ∈ ds, a.Gives m state d q := by
  rw [analyze, Traced.result_bind] at h
  obtain ⟨chart, hchart, h⟩ := bind_eq_ok.1 h
  rw [Traced.result_bind, Traced.result_ofExcept] at h
  obtain ⟨ds, hds, h⟩ := bind_eq_ok.1 h
  cases hexecutor : a.executor with
  | none =>
    rw [hexecutor] at h
    obtain rfl := Except.ok.inj h
    refine ⟨hchart, ds, hds, fun q => ?_⟩
    simp [Gives, hexecutor, eq_comm]
  | some executor =>
    rw [hexecutor] at h
    simp only [Traced.result_bind, JointParse.ofDerivations, Traced.result_map] at h
    obtain ⟨js, hjs, h⟩ := bind_eq_ok.1 h
    obtain ⟨executed, hexecuted, rfl⟩ := map_eq_ok.1 hjs
    obtain rfl := Except.ok.inj h
    refine ⟨hchart, ds, hds, fun q => ?_⟩
    simp only [List.mem_map, (byScore_perm _ _).mem_iff, JointParse.mem_executeAll hexecuted, Gives,
      hexecutor]
    constructor
    · rintro ⟨j, ⟨d, hd, v, hv, hj⟩, rfl⟩
      exact ⟨d, hd, v, hv, j, hj, rfl⟩
    · rintro ⟨d, hd, v, hv, j, hj, rfl⟩
      exact ⟨j, ⟨d, hd, v, hv, hj⟩, rfl⟩

end

variable {a : Analyzer Rat} {m m' : Model Rat} {state : Value} {d d' : Derivation Rat}
  {q : Parse Rat}

/-- What an analyzer makes of a derivation, it also makes of one of the same category, whose score
is not smaller, with a model that scores executions alike. -/
theorem Gives.exists_again (hexecutor : ∀ executor, a.executor = some executor →
      executor.Coherent state)
    (hscores : ∀ v, m'.scoreExecution v = m.scoreExecution v)
    (hcategory : d.category.same d'.category = true) (hscore : d.score ≤ d'.score)
    (h : a.Gives m state d q) : ∃ q', a.Gives m' state d' q' ∧ q.result.same q'.result = true ∧
      q.score ≤ q'.score := by
  rw [Category.same, Bool.and_eq_true] at hcategory
  rw [Gives] at h
  cases hexecutes : a.executor with
  | none =>
    rw [hexecutes] at h
    subst h
    refine ⟨.derived d', by rw [Gives, hexecutes], hcategory.2, hscore⟩
  | some executor =>
    rw [hexecutes] at h
    obtain ⟨v, hv, j, hj, rfl⟩ := h
    obtain ⟨w, hw, hvw⟩ := JointParse.execute_of_same (hexecutor _ hexecutes) hcategory.2 hv
    obtain ⟨score, hscore', rfl⟩ := JointParse.create_eq_ok hj
    have hscored : m'.scoreExecution w = .ok score := by
      rw [hscores, ← Model.scoreExecution_of_same m hvw, hscore']
    refine ⟨.joint ⟨d', w, score⟩, ?_, ?_, ?_⟩
    · rw [Gives, hexecutes]
      exact ⟨w, hw, _, JointParse.create_ok hscored, rfl⟩
    · simp [Parse.result, JointParse.result, Value.same, Value.sameAll, Derivation.meaning,
        hcategory.2, hvw]
    · exact add_le_add_left hscore score

end Analyzer

end Categorial
