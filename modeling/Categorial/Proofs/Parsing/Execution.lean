import Categorial.Proofs.Parsing.Best
import Categorial.Proofs.Parsing.Executed
import Categorial.Proofs.Parsing.Outcome

/-!
Runs of an executor over the derivations of a sentence. An executor is asked for the meanings of the
derivations one after the other; what it does with a meaning shows in the notes it leaves. Main
statement: the executor is asked once for each derivation that has a meaning, in the order of the
derivations, until a fault escapes; if none does, the parses are the derivations whose execution
gave a result, each with this result and its score added, ranked, and equal scores in the order of
the derivations.
-/

namespace Categorial

/-- Whether two executors differ in their notes at most. -/
def Executor.Mimics (executor executor' : Executor) : Prop :=
  ∀ v state, (executor v state).result = (executor' v state).result

/-- An executor that leaves a mark of its own before each call. -/
def Executor.marked (mark : Value → Value → Note) (executor : Executor) : Executor := fun v state =>
  ⟨mark v state :: (executor v state).notes, (executor v state).result⟩

theorem Executor.mimics_marked (mark : Value → Value → Note) (executor : Executor) :
    (executor.marked mark).Mimics executor := fun _ _ => rfl

namespace JointParse

variable {K : Type} {executor executor' : Executor} {state : Value} {d : Derivation K}
  {ds : List (Derivation K)}

/-- The derivations that an executor is asked for: those with a meaning. -/
def asked (ds : List (Derivation K)) : List (Derivation K) := ds.filter fun d => !d.meaning.isNone

/-- The notes that are left when an executor is asked for a derivation: its own, and one on a
meaning that cannot be executed. -/
def callNotes (executor : Executor) (state : Value) (d : Derivation K) : List Note :=
  (executor d.meaning state).notes ++ match (executor d.meaning state).result with
    | .ok _ => []
    | .error fault =>
      if fault.kind.coveredBy [.execution] then [.executionFailure d.category.text fault] else []

/-- Whether an executor gives a result to a derivation. -/
def yields (executor : Executor) (state : Value) (d : Derivation K) : Bool :=
  !d.meaning.isNone && match (executor d.meaning state).result with
    | .ok outcome => !outcome.isNone
    | .error _ => false

theorem asked_append (ds ds' : List (Derivation K)) : asked (ds ++ ds') = asked ds ++ asked ds' :=
  List.filter_append ..

theorem notes_execute (executor : Executor) (state : Value) (d : Derivation K) :
    (execute executor state d).notes = (asked [d]).flatMap (callNotes executor state) := by
  rw [execute, asked]
  cases h : d.meaning.isNone with
  | true =>
    rw [if_pos rfl, List.filter_cons_of_neg (by simp [h])]
    rfl
  | false =>
    simp only [h, Bool.false_eq_true, if_false, Bool.not_false, List.filter_cons_of_pos,
      List.filter_nil, List.flatMap_cons, List.flatMap_nil, List.append_nil, callNotes]
    cases (executor d.meaning state).result with
    | ok outcome => simp
    | error fault => by_cases hkind : fault.kind.coveredBy [.execution] = true <;> simp [hkind]

theorem execute_eq_error {fault : Fault} : (execute executor state d).result = .error fault ↔
    d.meaning.isNone = false ∧ (executor d.meaning state).result = .error fault ∧
      fault.kind.coveredBy [.execution] = false := by
  rw [execute]
  cases d.meaning.isNone with
  | true => simp
  | false =>
    simp only [Bool.false_eq_true, if_false, true_and]
    cases (executor d.meaning state).result with
    | ok outcome => simp
    | error fault' =>
      by_cases h : fault'.kind.coveredBy [.execution] = true
      · simp only [h, if_true, reduceCtorEq, false_iff, not_and, Except.error.injEq]
        rintro rfl
        simp [h]
      · simp only [h, Bool.false_eq_true, if_false, Except.error.injEq]
        refine ⟨?_, And.left⟩
        rintro rfl
        exact ⟨rfl, by simpa using h⟩

theorem yields_iff : yields executor state d = true ↔
    ∃ v, (execute executor state d).result = .ok (some v) := by
  simp only [execute_eq_some, yields, Bool.and_eq_true, Bool.not_eq_true']
  cases (executor d.meaning state).result <;> simp

theorem result_execute_of_mimics (h : executor'.Mimics executor) :
    (execute executor' state d).result = (execute executor state d).result := by
  rw [execute, execute]
  split
  · rfl
  · dsimp only
    rw [h]
    cases (executor d.meaning state).result with
    | ok outcome => rfl
    | error fault => by_cases hkind : fault.kind.coveredBy [.execution] = true <;> simp [hkind]

variable [Scalar K] {m : Model K} {called : List (Derivation K)}
  {outcome : Except Fault (List (JointParse K))}

/-- Whether a fault escapes when a derivation is executed: the executor fails in another way than
finding that the meaning cannot be executed, or its result cannot be scored. -/
def Escapes (m : Model K) (executor : Executor) (state : Value) (d : Derivation K)
    (fault : Fault) : Prop :=
  d.meaning.isNone = false ∧ ((executor d.meaning state).result = .error fault ∧
    fault.kind.coveredBy [.execution] = false ∨
      ∃ v, (executor d.meaning state).result = .ok v ∧ v.isNone = false ∧
        create m d v = .error fault)

/-- Whether a parse is a derivation with the result of its execution. -/
structure Executes (m : Model K) (executor : Executor) (state : Value) (d : Derivation K)
    (j : JointParse K) : Prop where
  base : j.base = d
  outcome : (executor d.meaning state).result = .ok j.outcome
  result : j.result = .tuple [d.meaning, j.outcome]
  score : ∃ x, m.scoreExecution j.outcome = .ok x ∧ j.score = d.score + x

/-- How executing some derivations in their order ends, and which of them the executor is asked
for. -/
inductive Execution (m : Model K) (executor : Executor) (state : Value) :
    List (Derivation K) → List (Derivation K) → Except Fault (List (JointParse K)) → Prop where
  /-- A fault escapes from a derivation, and none does before; it is the outcome of the whole, and
  what follows is not asked for. -/
  | escaped {before after : List (Derivation K)} {d : Derivation K} {fault : Fault}
      (hbefore : ∀ b ∈ before, ∀ f, ¬ Escapes m executor state b f)
      (hd : Escapes m executor state d fault) :
      Execution m executor state (before ++ d :: after) (asked (before ++ [d])) (.error fault)
  /-- No fault escapes; the outcome is a parse for each derivation that a result is given to. -/
  | finished {ds : List (Derivation K)} {js : List (JointParse K)}
      (hds : ∀ d ∈ ds, ∀ f, ¬ Escapes m executor state d f)
      (hjs : List.Forall₂ (Executes m executor state) (ds.filter (yields executor state)) js) :
      Execution m executor state ds (asked ds) (.ok js)

theorem escapes_iff {fault : Fault} : Escapes m executor state d fault ↔
    (execute executor state d).result = .error fault ∨
      ∃ v, (execute executor state d).result = .ok (some v) ∧ create m d v = .error fault := by
  simp only [execute_eq_error, execute_eq_some, Escapes, and_or_left, ← exists_and_left, and_assoc]

theorem executes_of_create {v : Value} {j : JointParse K}
    (h : (execute executor state d).result = .ok (some v)) (hj : create m d v = .ok j) :
    Executes m executor state d j := by
  obtain ⟨x, hx, rfl⟩ := create_eq_ok hj
  exact ⟨rfl, (execute_eq_some.1 h).2.1, rfl, x, hx, rfl⟩

/-- A fault that escapes from the first derivation. -/
theorem Execution.first {fault : Fault} (hd : Escapes m executor state d fault)
    (ds : List (Derivation K)) :
    Execution m executor state (d :: ds) (asked [d]) (.error fault) := by
  have hbefore : ∀ b ∈ ([] : List (Derivation K)), ∀ f, ¬ Escapes m executor state b f := by simp
  exact .escaped hbefore hd

/-- A derivation from which no fault escapes goes before the others. -/
theorem Execution.cons (h : Execution m executor state ds called outcome)
    (hd : ∀ f, ¬ Escapes m executor state d f) {front : List (JointParse K)}
    (hfront : List.Forall₂ (Executes m executor state) ([d].filter (yields executor state)) front) :
    Execution m executor state (d :: ds) (asked [d] ++ called) (outcome.map (front ++ ·)) := by
  cases h with
  | escaped hbefore hfault =>
    rw [← asked_append, ← List.append_assoc, ← List.cons_append]
    exact .escaped (List.forall_mem_cons.2 ⟨hd, hbefore⟩) hfault
  | finished hds hjs =>
    rw [← asked_append]
    refine .finished (List.forall_mem_cons.2 ⟨hd, hds⟩) ?_
    rw [← List.singleton_append, List.filter_append]
    exact List.rel_append hfront hjs

theorem executeAll_of_error {fault : Fault}
    (h : (execute executor state d).result = .error fault) :
    executeAll m executor state (d :: ds) = ⟨(execute executor state d).notes, .error fault⟩ := by
  rw [executeAll]
  simp [bind, h]

theorem executeAll_of_none (h : (execute executor state d).result = .ok none) :
    executeAll m executor state (d :: ds) =
      ⟨(execute executor state d).notes ++ (executeAll m executor state ds).notes,
        (executeAll m executor state ds).result⟩ := by
  rw [executeAll]
  simp [bind, h]

theorem executeAll_of_some {v : Value} (h : (execute executor state d).result = .ok (some v)) :
    executeAll m executor state (d :: ds) = match create m d v with
      | .error fault => ⟨(execute executor state d).notes, .error fault⟩
      | .ok j => ⟨(execute executor state d).notes ++ (executeAll m executor state ds).notes,
          (executeAll m executor state ds).result.map (j :: ·)⟩ := by
  rw [executeAll]
  cases hj : create m d v with
  | error fault => simp [bind, h, hj, Traced.ofExcept]
  | ok j =>
    cases hrest : (executeAll m executor state ds).result <;>
      simp [bind, h, hj, hrest, Traced.ofExcept, pure, Except.map]

/-- Every run over derivations ends in one of these ways. What the executor leaves is left in the
order of the derivations. -/
theorem exists_execution (m : Model K) (executor : Executor) (state : Value)
    (ds : List (Derivation K)) : ∃ called outcome, Execution m executor state ds called outcome ∧
      ∀ executor' : Executor, executor'.Mimics executor → executeAll m executor' state ds =
        ⟨called.flatMap (callNotes executor' state), outcome⟩ := by
  induction ds with
  | nil => exact ⟨_, _, .finished (by simp) .nil, fun _ _ => rfl⟩
  | cons d ds ih =>
    obtain ⟨called, outcome, hexecution, hrun⟩ := ih
    cases hd : (execute executor state d).result with
    | error fault =>
      refine ⟨_, _, .first (escapes_iff.2 (Or.inl hd)) ds, fun executor' hmimics => ?_⟩
      rw [← result_execute_of_mimics hmimics] at hd
      rw [executeAll_of_error hd, notes_execute]
    | ok result =>
      cases result with
      | none =>
        have hnone : ∀ f, ¬ Escapes m executor state d f := by
          intro f
          simp [escapes_iff, hd]
        have hfront : List.Forall₂ (Executes m executor state)
            ([d].filter (yields executor state)) [] := by
          simp [yields_iff, hd]
        refine ⟨_, _, hexecution.cons hnone hfront, fun executor' hmimics => ?_⟩
        rw [← result_execute_of_mimics hmimics] at hd
        rw [executeAll_of_none hd, notes_execute, hrun executor' hmimics, List.flatMap_append]
        cases outcome <;> rfl
      | some v =>
        cases hj : create m d v with
        | error fault =>
          have hfault : Escapes m executor state d fault := escapes_iff.2 (Or.inr ⟨v, hd, hj⟩)
          refine ⟨_, _, .first hfault ds, fun executor' hmimics => ?_⟩
          rw [← result_execute_of_mimics hmimics] at hd
          simp only [executeAll_of_some hd, hj, notes_execute]
        | ok j =>
          have hnone : ∀ f, ¬ Escapes m executor state d f := by
            intro f
            simp [escapes_iff, hd, hj]
          have hfront : List.Forall₂ (Executes m executor state)
              ([d].filter (yields executor state)) [j] := by
            rw [List.filter_cons_of_pos (yields_iff.2 ⟨v, hd⟩)]
            exact .cons (executes_of_create hd hj) .nil
          refine ⟨_, _, hexecution.cons hnone hfront, fun executor' hmimics => ?_⟩
          rw [← result_execute_of_mimics hmimics] at hd
          simp only [executeAll_of_some hd, hj, notes_execute, hrun executor' hmimics,
            List.flatMap_append, List.singleton_append]

end JointParse

namespace Analyzer

variable {K : Type} [Scalar K] {p : Parser K} {m : Model K} {tokens : List String} {state : Value}
  {options : ParseOptions}

/-- A parse that fails is not followed by any call. -/
theorem analyze_of_error {executor : Option Executor} {fault : Fault}
    (h : (p.chart m tokens options).result = .error fault) :
    analyze ⟨p, executor⟩ m tokens state options =
      ⟨(p.chart m tokens options).notes, .error fault⟩ := by
  rw [analyze]
  simp [bind, h]

/-- After a parse the derivations are executed, and what comes out is sorted. -/
theorem analyze_of_ok {executor : Executor} {chart : Chart K} {ds : List (Derivation K)}
    (hchart : (p.chart m tokens options).result = .ok chart)
    (hds : Derivation.ofChart chart = .ok ds) :
    analyze ⟨p, some executor⟩ m tokens state options =
      ⟨(p.chart m tokens options).notes ++ (JointParse.executeAll m executor state ds).notes,
        (JointParse.executeAll m executor state ds).result.map fun js =>
          ⟨chart, (byScore JointParse.score js).map .joint, 0⟩⟩ := by
  rw [analyze]
  cases hrun : (JointParse.executeAll m executor state ds).result <;>
    simp [bind, hchart, hds, hrun, Traced.ofExcept, JointParse.ofDerivations, Functor.map, pure,
      Except.map]

variable [OrderedScalar K]

/-- A parser with an executor asks it once for each derivation that has a meaning, in their order
and for nothing else, until a fault escapes, which is the outcome then. If none does, the parses are
those of the derivations that a result is given to, and where their scores are defined, they are
ranked, those of equal scores in the order of the derivations. -/
theorem executed_parses (p : Parser K) (executor : Executor) (m : Model K) (tokens : List String)
    (state : Value) (options : ParseOptions) :
    (∃ fault, (p.chart m tokens options).result = .error fault ∧
      ∀ executor', analyze ⟨p, some executor'⟩ m tokens state options =
        ⟨(p.chart m tokens options).notes, .error fault⟩) ∨
    ∃ chart ds called outcome, (p.chart m tokens options).result = .ok chart ∧
      Derivation.ofChart chart = .ok ds ∧
      JointParse.Execution m executor state ds called outcome ∧
      (analyze ⟨p, some executor⟩ m tokens state options).notes =
        (p.chart m tokens options).notes ++
          called.flatMap (JointParse.callNotes executor state) ∧
      (∀ mark, (analyze ⟨p, some (executor.marked mark)⟩ m tokens state options).notes =
        (p.chart m tokens options).notes ++
          called.flatMap fun d => mark d.meaning state :: JointParse.callNotes executor state d) ∧
      match outcome with
      | .error fault =>
        (analyze ⟨p, some executor⟩ m tokens state options).result = .error fault
      | .ok js => ∃ ps : List (JointParse K),
        (analyze ⟨p, some executor⟩ m tokens state options).result =
          .ok ⟨chart, ps.map .joint, 0⟩ ∧ ps.Perm js ∧
        ((∀ j ∈ js, Scalar.Defined j.score) → Parse.Ranked (ps.map .joint) ∧
          ∀ score, ps.filter (fun j => Scalar.same j.score score) =
            js.filter fun j => Scalar.same j.score score) := by
  cases hchart : (p.chart m tokens options).result with
  | error fault => exact Or.inl ⟨fault, rfl, fun executor' => analyze_of_error hchart⟩
  | ok chart =>
    obtain ⟨t, ht⟩ := Parser.exists_sentence hchart
    obtain ⟨-, ds, -, hds, -⟩ := (Parser.complete_of_chart ht (Or.inl hchart)).ofChart_eq
    obtain ⟨called, outcome, hexecution, hrun⟩ :=
      JointParse.exists_execution m executor state ds
    have hplain := hrun executor fun _ _ => rfl
    refine Or.inr ⟨chart, ds, called, outcome, rfl, hds, hexecution, ?_, ?_, ?_⟩
    · rw [analyze_of_ok hchart hds, hplain]
    · intro mark
      rw [analyze_of_ok hchart hds, hrun _ (executor.mimics_marked mark)]
      rfl
    · rw [analyze_of_ok hchart hds, hplain]
      cases outcome with
      | error fault => rfl
      | ok js =>
        refine ⟨_, rfl, byScore_perm _ js, fun hdefined => ⟨?_, ?_⟩⟩
        · exact Parse.ranked_byScore hdefined
        · exact filter_byScore hdefined

/-- An executor that doubles its first two meanings, refuses the third, and finds that no other one
can be executed. -/
def doubler : Executor := fun v _ => match v with
  | .int 1 => pure (.int 2)
  | .int 2 => pure (.int 4)
  | .int 3 => pure .none
  | _ => .fail (.raised .execution "no number")

/-- A model with an entry for the token `a` with each of some meanings. -/
def choiceModel (meanings : List Value) : Model Rat :=
  ⟨.ofList (meanings.map fun v => ⟨["a"], ⟨some (.primitive "N"), v⟩, .fixed, []⟩), [], [], [],
    .empty⟩

/-- Of five derivations with equal scores, four have a meaning and two are given a result. -/
example :
    let run := analyze ⟨.create .empty .default .structural .empty false, some doubler⟩
      (choiceModel [.int 4, .int 2, .none, .int 3, .int 1]) ["a"] .none .plain
    run.notes.length = 1 ∧
      (run.result.map fun analysis => analysis.parses.map fun q => q.result.display).toOption =
        some ["(2, 4)", "(1, 2)"] := by
  decide +kernel

end Analyzer

end Categorial
