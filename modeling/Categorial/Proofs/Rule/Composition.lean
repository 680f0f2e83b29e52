import Categorial.Rule.Binary

/-!
Composition and repeated application. A rule takes an answer of its services for a meaning unless it
is a fault, no meaning, or one that cannot be a key; a composed function hands the answer of its
inner part on as it is. Main statement: composing two functions and applying the result gives what
applying them one after the other gives, unless the outer function makes something of an answer that
a rule would not have taken from the inner one.
-/

namespace Categorial

/-- The meaning that a rule takes from an answer of its services, if it takes one. -/
def accepted : Except Fault Value → Option Value
  | .ok v => if v.isNone || !v.hashable then none else some v
  | .error _ => none

theorem accepted_eq_some {answer : Except Fault Value} {v : Value} :
    accepted answer = some v ↔ answer = .ok v ∧ v.isNone = false ∧ v.hashable = true := by
  cases answer with
  | error fault => simp [accepted]
  | ok w =>
    rw [accepted]
    split
    · rename_i hrefused
      simp only [reduceCtorEq, Except.ok.injEq, false_iff, not_and]
      rintro rfl hnone hhashable
      simp [hnone, hhashable] at hrefused
    · rename_i htaken
      simp only [Option.some.injEq, Except.ok.injEq]
      constructor
      · rintro rfl
        simpa using htaken
      · exact fun h => h.1

/-- A rule gets a meaning from its services that it takes from their answer, or fails on an answer
that it does not take. -/
theorem askService_result (rule : String) (answer : Except Fault Value) :
    (askService rule answer).result = .ok ((accepted answer).getD .none) ∨
      accepted answer = none ∧ ∃ fault, (askService rule answer).result = .error fault := by
  cases answer with
  | error fault => exact .inl rfl
  | ok v =>
    simp only [askService, Traced.result_bind, Traced.result_ofExcept, accepted]
    cases hkey : v.checkKey with
    | error fault =>
      refine .inr ⟨?_, fault, rfl⟩
      cases hhashable : v.hashable with
      | true =>
        rw [Value.checkKey_of_hashable hhashable] at hkey
        cases hkey
      | false => simp
    | ok key =>
      rw [Value.hashable_of_checkKey hkey]
      cases key with
      | false => exact .inl (by simp [Except.bind])
      | true => cases v <;> exact .inl rfl

namespace BinaryRule

/-- Two categories with meanings have the meaning that is taken from the answer of the service, or
none is taken as the rule fails. -/
theorem combine_result (rule : RuleName) {left right : Category} (answer : Except Fault Value)
    (hleft : left.meaning.isNone = false) (hright : right.meaning.isNone = false) :
    (combine rule left right answer).result = .ok (accepted answer) ∨
      accepted answer = none ∧ ∃ fault, (combine rule left right answer).result = .error fault := by
  simp only [combine, hleft, hright, Bool.false_and, Bool.or_false, Bool.false_eq_true, if_false,
    Traced.result_bind]
  rcases askService_result rule.text answer with hasked | ⟨hnone, fault, hfault⟩
  · rw [hasked]
    refine .inl ?_
    cases htaken : accepted answer with
    | none => rfl
    | some v =>
      obtain ⟨-, hv, -⟩ := accepted_eq_some.1 htaken
      simp [Except.bind, hv]
  · exact .inr ⟨hnone, fault, by rw [hfault]; rfl⟩

/-- The categories that a rule gives for a function and its argument, which stands behind the
function, or before it if the rule looks backward; a rule that fails gives none. -/
def results (rule : BinaryRule) (function argument : Category) : List Category :=
  let outcome := match rule.name.direction with
    | .forward => rule.apply function argument
    | .backward => rule.apply argument function
  match outcome.result with
  | .ok results => results.map (·.category)
  | .error _ => []

/-- The categories of a rule that gives one type. -/
def typed (type : SyntaxType) (meaning : Option Value) : List Category :=
  (meaning.map fun v => ⟨some type, v⟩).toList

theorem map_category_single (rule : RuleName) (type : SyntaxType) (meaning : Option Value) :
    (single rule type meaning).map (·.category) = typed type meaning := by
  cases meaning <;> rfl

/-- The categories of a rule that gives one type for the meaning of two categories with meanings. -/
theorem categories_combine {rule : RuleName} {type : SyntaxType} {left right : Category}
    {answer : Except Fault Value} (hleft : left.meaning.isNone = false)
    (hright : right.meaning.isNone = false) :
    (match (do
        let meaning ← combine rule left right answer
        return single rule type meaning : Traced (List RuleResult)).result with
      | .ok results => results.map (·.category)
      | .error _ => []) = typed type (accepted answer) := by
  rw [Traced.result_bind]
  rcases combine_result rule answer hleft hright with
    hasked | ⟨hnone, fault, hfault⟩
  · rw [hasked]
    exact map_category_single _ _ _
  · rw [hfault, hnone]
    rfl

variable {d : Direction} {S : Services} {x y y' z : SyntaxType} {f g a : Value}

theorem results_application (hy : y.same y' = true) (hf : f.isNone = false)
    (ha : a.isNone = false) :
    (application d S).results ⟨some (.slash d x y), f⟩ ⟨some y', a⟩ =
      typed x (accepted (S.apply f a)) := by
  have hsame : Typing.same (some y) (some y') = true :=
    Typing.same_iff.2 (congrArg some (SyntaxType.same_iff.1 hy))
  cases d with
  | forward =>
    simp only [results, name, apply, hsame, if_true]
    exact categories_combine hf ha
  | backward =>
    simp only [results, name, apply, hsame, if_true]
    exact categories_combine ha hf

theorem results_composition (hy : y.same y' = true) (hf : f.isNone = false)
    (hg : g.isNone = false) :
    (composition d S).results ⟨some (.slash d x y), f⟩ ⟨some (.slash d y' z), g⟩ =
      typed (.slash d x z) (accepted (S.compose f g)) := by
  cases d with
  | forward =>
    simp only [results, name, apply, hy, if_true]
    exact categories_combine hf hg
  | backward =>
    simp only [results, name, apply, hy, if_true]
    exact categories_combine hg hf

variable {I : Interpretation} {rejected : List FaultKind}

/-- Calling a value that is not a function is a fault. -/
theorem call_of_not_callable (h : f.isCallable = false) : ∃ fault, f.call I a = .error fault := by
  cases f with
  | composed => simp [Value.isCallable] at h
  | func => simp [Value.isCallable] at h
  | _ => exact ⟨_, rfl⟩

/-- Services that call functions have a meaning taken from what the function gives; the kinds of
fault that count as a refusal do not matter to a rule. -/
theorem accepted_apply (f a : Value) :
    accepted ((Services.calling I rejected).apply f a) = accepted (f.call I a) := by
  simp only [Services.calling]
  split
  · cases f.call I a with
    | ok v => rfl
    | error fault =>
      dsimp only
      split <;> rfl
  · rename_i hcallable
    obtain ⟨fault, hfault⟩ := call_of_not_callable (Bool.not_eq_true _ ▸ hcallable)
    rw [hfault]
    rfl

theorem accepted_compose (hf : f.hashable = true) (hg : g.hashable = true) :
    accepted ((Services.calling I rejected).compose f g) =
      if f.isCallable && g.isCallable then some (.composed f g) else none := by
  simp only [Services.calling]
  split
  · simp [accepted, Value.isNone, hf, hg]
  · rfl

/-- The categories of a function applied to what composing it with another one gives. -/
def composeThenApply (d : Direction) (S : Services) (outer inner argument : Category) :
    List Category :=
  ((composition d S).results outer inner).flatMap fun c => (application d S).results c argument

/-- The categories of a function applied to what another one gives. -/
def applyTwice (d : Direction) (S : Services) (outer inner argument : Category) : List Category :=
  ((application d S).results inner argument).flatMap fun c => (application d S).results outer c

/-- A composed function hands the answer of its inner part on as it is. -/
theorem accepted_call_composed : accepted ((Value.composed f g).call I a) =
    (g.call I a).toOption.bind fun v => accepted (f.call I v) := by
  rw [Value.call]
  cases g.call I a <;> rfl

variable {z' : SyntaxType}

theorem composeThenApply_eq (hy : y.same y' = true) (hz : z.same z' = true)
    (hf : f.isNone = false) (hg : g.isNone = false) (ha : a.isNone = false)
    (hfkey : f.hashable = true) (hgkey : g.hashable = true) :
    composeThenApply d (.calling I rejected) ⟨some (.slash d x y), f⟩ ⟨some (.slash d y' z), g⟩
        ⟨some z', a⟩ =
      typed x ((g.call I a).toOption.bind fun v => accepted (f.call I v)) := by
  rw [composeThenApply, results_composition hy hf hg, accepted_compose hfkey hgkey,
    ← accepted_call_composed]
  split
  · rw [typed, Option.map_some, Option.toList_some, List.flatMap_singleton,
      results_application hz rfl ha, accepted_apply]
  · rename_i hcallable
    rw [Bool.not_eq_true, Bool.and_eq_false_iff] at hcallable
    have hnone : accepted ((Value.composed f g).call I a) = none := by
      rw [accepted_call_composed]
      rcases hcallable with hcallable | hcallable
      · cases g.call I a with
        | error fault => rfl
        | ok v =>
          obtain ⟨fault, hfault⟩ := call_of_not_callable hcallable
          exact congrArg accepted hfault
      · obtain ⟨fault, hfault⟩ := call_of_not_callable hcallable
        rw [hfault]
        rfl
    rw [hnone]
    rfl

theorem applyTwice_eq (hy : y.same y' = true) (hz : z.same z' = true)
    (hf : f.isNone = false) (hg : g.isNone = false) (ha : a.isNone = false) :
    applyTwice d (.calling I rejected) ⟨some (.slash d x y), f⟩ ⟨some (.slash d y' z), g⟩
        ⟨some z', a⟩ =
      typed x ((accepted (g.call I a)).bind fun v => accepted (f.call I v)) := by
  rw [applyTwice, results_application hz hg ha, accepted_apply]
  cases hanswer : accepted (g.call I a) with
  | none => rfl
  | some v =>
    obtain ⟨-, hv, -⟩ := accepted_eq_some.1 hanswer
    rw [typed, Option.map_some, Option.toList_some, List.flatMap_singleton,
      results_application hy hf hv, accepted_apply]
    rfl

theorem typed_inj {meaning meaning' : Option Value} :
    typed x meaning = typed x meaning' ↔ meaning = meaning' := by
  cases meaning <;> cases meaning' <;> simp [typed]

/-- Composing two functions and applying the result to an argument gives what applying them one
after the other gives, unless the outer function makes something of an answer of the inner one that
is no meaning, or one that cannot be a key. What repeated application gives, composition always
gives. -/
theorem composeThenApply_eq_applyTwice_iff (hy : y.same y' = true) (hz : z.same z' = true)
    (hf : f.isNone = false) (hg : g.isNone = false) (ha : a.isNone = false)
    (hfkey : f.hashable = true) (hgkey : g.hashable = true) :
    let outer : Category := ⟨some (.slash d x y), f⟩
    let inner : Category := ⟨some (.slash d y' z), g⟩
    let argument : Category := ⟨some z', a⟩
    (composeThenApply d (.calling I rejected) outer inner argument =
        applyTwice d (.calling I rejected) outer inner argument ↔
      ∀ v, g.call I a = .ok v → v.isNone = true ∨ v.hashable = false →
        accepted (f.call I v) = none) ∧
    applyTwice d (.calling I rejected) outer inner argument ⊆
      composeThenApply d (.calling I rejected) outer inner argument := by
  intro outer inner argument
  rw [composeThenApply_eq hy hz hf hg ha hfkey hgkey, applyTwice_eq hy hz hf hg ha, typed_inj]
  cases g.call I a with
  | error fault => simp [accepted, Except.toOption]
  | ok v =>
    have hpassed : (Except.ok v : Except Fault Value).toOption.bind
        (fun v => accepted (f.call I v)) = accepted (f.call I v) := rfl
    rw [hpassed]
    cases htaken : accepted (.ok v) with
    | none =>
      refine ⟨⟨fun heq w hw _ => ?_, fun hall => ?_⟩, List.nil_subset _⟩
      · obtain rfl := Except.ok.inj hw
        exact heq
      · refine hall v rfl ?_
        rw [accepted] at htaken
        split at htaken
        · rename_i hrefused
          simpa using hrefused
        · cases htaken
    | some w =>
      obtain ⟨hw, hnone, hhashable⟩ := accepted_eq_some.1 htaken
      obtain rfl := Except.ok.inj hw
      refine ⟨⟨fun _ w hw hrefused => ?_, fun _ => rfl⟩, List.Subset.refl _⟩
      obtain rfl := Except.ok.inj hw
      simp [hnone, hhashable] at hrefused

/-- Two functions that pair their names with their arguments agree, whichever way they are combined
with an argument. -/
theorem composeThenApply_eq_applyTwice_tags :
    let tag (name : String) : Value := .func ⟨name, .named, .tag none⟩ [] []
    let services := Services.calling .stock Services.usualRejections
    let outer : Category := ⟨some (.slash .forward (.primitive "S") (.primitive "NP")), tag "f"⟩
    let inner : Category := ⟨some (.slash .forward (.primitive "NP") (.primitive "N")), tag "g"⟩
    let argument : Category := ⟨some (.primitive "N"), .text "a"⟩
    composeThenApply .forward services outer inner argument =
        applyTwice .forward services outer inner argument ∧
      (applyTwice .forward services outer inner argument).length = 1 := by
  refine ⟨(composeThenApply_eq_applyTwice_iff rfl rfl rfl rfl rfl rfl rfl).1.2 ?_, rfl⟩
  intro v hv hrefused
  obtain rfl := Except.ok.inj hv
  rcases hrefused with hnone | hkey
  · cases hnone
  · cases hkey

/-- A function that refuses its argument by giving no meaning is composed through. -/
theorem composed_through_refusal :
    let services := Services.calling .stock Services.usualRejections
    let outer : Category := ⟨some (.slash .forward (.primitive "S") (.primitive "NP")),
      .func ⟨"f", .named, .const⟩ [.text "v"] []⟩
    let inner : Category := ⟨some (.slash .forward (.primitive "NP") (.primitive "N")),
      .func ⟨"g", .named, .reject⟩ [] []⟩
    let argument : Category := ⟨some (.primitive "N"), .text "a"⟩
    (composeThenApply .forward services outer inner argument).length = 1 ∧
      applyTwice .forward services outer inner argument = [] :=
  ⟨rfl, rfl⟩

end BinaryRule

end Categorial
