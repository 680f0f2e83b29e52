import Categorial.Proofs.Grammar
import Categorial.Proofs.SyntaxType.Names

/-!
Schemas of rules. What a rule gives has the type that its schema tells from the types of its
arguments; meanings and services can only keep a rule from giving it. Types are compared by their
names, and a name is taken apart in one way once the name of one part is known. Main statement: a
rule fails exactly if the answer of its services refuses to be a key with a fault that is not of a
type, and on equal types it gives equal types, a composition if it composes through equal types as
well; a grammar gives what its rules give alone, in their order, unless one of them gives a result
that refuses so.
-/

namespace Categorial

/-- A text that stands at the front of itself behind a character consists of that character. -/
theorem eq_of_isPrefix_cons {α : Type} {x : α} {w rest : List α} (h : w <+: x :: (w ++ rest)) :
    ∀ c ∈ w, c = x := by
  induction w with
  | nil => simp
  | cons y w ih =>
    obtain ⟨rfl, htail⟩ := List.cons_prefix_cons.1 h
    intro c hc
    rcases List.mem_cons.1 hc with rfl | hc
    · rfl
    · exact ih htail c hc

namespace SyntaxType

variable {d : Direction} {x x' y y' z z' : SyntaxType}

theorem slash_mem_name (h : y.isFunction = true) : ∃ d : Direction, d.slash ∈ y.name.toList := by
  cases y with
  | slash d main sub => exact ⟨d, by simp [toList_name_slash]⟩
  | _ => cases h

/-- A slash type in parentheses does not end in its own name. -/
theorem not_isSuffix_argumentName (h : y.isFunction = true) (front : List Char) :
    ¬ y.name.toList <:+ front ++ y.argumentName.toList := by
  intro hsuffix
  obtain ⟨d, hslash⟩ := slash_mem_name h
  rw [toList_argumentName h, ← List.reverse_prefix] at hsuffix
  simp only [List.reverse_append, List.reverse_cons, List.reverse_nil, List.nil_append,
    List.append_assoc, List.cons_append] at hsuffix
  have hall := eq_of_isPrefix_cons hsuffix d.slash (List.mem_reverse.2 hslash)
  cases d <;> exact absurd hall (by decide)

/-- Of two slash types with one name, the results have one name if the arguments have. -/
theorem main_name_eq (h : (slash d x y).name = (slash d x' y').name) (hsub : y.name = y'.name) :
    x.name = x'.name := by
  have hlist := congrArg String.toList h
  rw [toList_name_slash, toList_name_slash] at hlist
  -- the name of a plain argument would be the end of a name in parentheses
  have hboth : y.argumentName = y'.argumentName := by
    cases hy : y.isFunction with
    | false =>
      cases hy' : y'.isFunction with
      | false =>
        rw [argumentName_of_not_isFunction hy, argumentName_of_not_isFunction hy', hsub]
      | true =>
        refine absurd ?_ (not_isSuffix_argumentName hy' (x'.name.toList ++ [d.slash]))
        rw [argumentName_of_not_isFunction hy, hsub] at hlist
        exact ⟨x.name.toList ++ [d.slash], by simpa using hlist⟩
    | true =>
      cases hy' : y'.isFunction with
      | false =>
        refine absurd ?_ (not_isSuffix_argumentName hy (x.name.toList ++ [d.slash]))
        rw [argumentName_of_not_isFunction hy', ← hsub] at hlist
        exact ⟨x'.name.toList ++ [d.slash], by simpa using hlist.symm⟩
      | true => simp [argumentName, hy, hy', hsub]
  rw [hboth] at hlist
  exact String.toList_injective (List.append_cancel_right hlist)

/-- Of two slash types with one name, the arguments are written alike if the results have one
name. -/
theorem argumentName_eq (h : (slash d x y).name = (slash d x' y').name)
    (hmain : x.name = x'.name) : y.argumentName = y'.argumentName := by
  have hlist := congrArg String.toList h
  rw [toList_name_slash, toList_name_slash, hmain] at hlist
  exact String.toList_injective (List.cons.inj (List.append_cancel_left hlist)).2

theorem name_slash_eq (hmain : x.name = x'.name) (hsub : y.argumentName = y'.argumentName) :
    (slash d x y).name = (slash d x' y').name := by
  apply String.toList_injective
  rw [toList_name_slash, toList_name_slash, hmain, hsub]

theorem coordination_name_eq_iff :
    (coordination x).name = (coordination x').name ↔ x.name = x'.name := by
  refine ⟨fun h => ?_, fun h => by rw [name, name, h]⟩
  have hlist := congrArg String.toList h
  simp only [toList_name_coordination, List.cons.injEq, true_and] at hlist
  exact String.toList_injective (List.append_cancel_right hlist)

end SyntaxType

namespace Typing

open SyntaxType

variable {t t' u u' : Typing}

theorem isCoordinationOf_iff : isCoordinationOf t u = true ↔
    ∃ x, t = some (.coordination x) ∧ same (some x) u = true := by
  rcases t with _ | _ | _ | _ | x <;> simp [isCoordinationOf]

section

variable {d : Direction} {x x' y y' z z' : SyntaxType}

theorem same_some_iff : same (some x) (some x') = true ↔ x.name = x'.name := by
  simp [same]

/-- Partial coordinations are the same if what they coordinate is. -/
theorem same_coordination_iff : same (some (.coordination x)) (some (.coordination x')) = true ↔
    same (some x) (some x') = true := by
  rw [same_some_iff, same_some_iff, coordination_name_eq_iff]

/-- Of slash types that are the same, the results are the same if the arguments are. -/
theorem same_main (h : same (some (.slash d x y)) (some (.slash d x' y')) = true)
    (hsub : same (some y) (some y') = true) : same (some x) (some x') = true := by
  rw [same_some_iff] at h hsub ⊢
  exact main_name_eq h hsub

/-- A slash type may be made of the result of one and the argument of another. -/
theorem same_composed (hx : same (some x) (some x') = true) (hy : same (some y) (some y') = true)
    (h : same (some (.slash d y z)) (some (.slash d y' z')) = true) :
    same (some (.slash d x z)) (some (.slash d x' z')) = true := by
  rw [same_some_iff] at hx hy h ⊢
  exact name_slash_eq hx (argumentName_eq h hy)

end

end Typing

/-- Whether what a rule asks for is answered, if at all, by a meaning that refuses to be a key, if
at all, with a fault of a type. -/
def Answered (answer : Option (Except Fault Value)) : Prop :=
  ∀ v, answer = some (.ok v) → v.RefusesByType

namespace BinaryRule

open SyntaxType

/-- The schemas of the rules: `rule.Yields left right result` says that, by the types alone, a rule
makes `result` of `left` and `right`. -/
inductive Yields : BinaryRule → Typing → Typing → Typing → Prop
  | applyForward {S : Services} {x y : SyntaxType} {u : Typing}
      (h : Typing.same (some y) u = true) :
      Yields (application .forward S) (some (.slash .forward x y)) u (some x)
  | applyBackward {S : Services} {x y : SyntaxType} {t : Typing}
      (h : Typing.same (some y) t = true) :
      Yields (application .backward S) t (some (.slash .backward x y)) (some x)
  | composeForward {S : Services} {x y y' z : SyntaxType}
      (h : Typing.same (some y) (some y') = true) :
      Yields (composition .forward S) (some (.slash .forward x y)) (some (.slash .forward y' z))
        (some (.slash .forward x z))
  | composeBackward {S : Services} {x y y' z : SyntaxType}
      (h : Typing.same (some y) (some y') = true) :
      Yields (composition .backward S) (some (.slash .backward y' z)) (some (.slash .backward x y))
        (some (.slash .backward x z))
  | skipForward {e t : Typing} (h : e.isEmpty = true) : Yields (skipping .forward) e t t
  | skipBackward {e t : Typing} (h : e.isEmpty = true) : Yields (skipping .backward) t e t
  | initiate {C : Option CoordinationServices} {t : Typing} {x : SyntaxType}
      (h : t.any (·.isConj) = true) (hconj : x.isConj = false)
      (hcoordination : x.isCoordination = false) (hempty : Typing.isEmpty (some x) = false) :
      Yields (initiation C) t (some x) (some (.coordination x))
  | complete {C : Option CoordinationServices} {t u : Typing}
      (h : u.isCoordinationOf t = true) : Yields (completion C) t u t
  | distribute {C : Option CoordinationServices} {x y : SyntaxType} {u : Typing}
      (h : u.isCoordinationOf (some y) = true) :
      Yields (distribution C) (some (.slash .forward x y)) u (some x)

/-- The type that a composition composes through; none for other rules. -/
def shared : BinaryRule → Typing → Typing → Typing
  | composition .forward _, some (.slash _ _ y), _ => some y
  | composition .backward _, _, some (.slash _ _ y) => some y
  | _, _, _ => none

/-- The rules that follow a schema, with services if they ask for coordinations. -/
inductive Schematic : BinaryRule → Prop
  | application (d : Direction) (S : Services) : Schematic (application d S)
  | composition (d : Direction) (S : Services) : Schematic (composition d S)
  | skipping (d : Direction) : Schematic (skipping d)
  | initiation (C : CoordinationServices) : Schematic (initiation (some C))
  | completion (C : CoordinationServices) : Schematic (completion (some C))
  | distribution (C : CoordinationServices) : Schematic (distribution (some C))

variable {rule : BinaryRule} {t t' u u' s s' : Typing}

/-- On types that are the same a schema yields types that are the same, if a composition goes
through types that are the same. -/
theorem Yields.same (h : rule.Yields t u s) (h' : rule.Yields t' u' s')
    (ht : t.same t' = true) (hu : u.same u' = true)
    (hshared : (rule.shared t u).same (rule.shared t' u') = true) : s.same s' = true := by
  cases h with
  | applyForward hsub =>
    cases h' with
    | applyForward hsub' =>
      exact Typing.same_main ht
        (Typing.same_trans hsub (Typing.same_trans hu (Typing.same_symm hsub')))
  | applyBackward hsub =>
    cases h' with
    | applyBackward hsub' =>
      exact Typing.same_main hu
        (Typing.same_trans hsub (Typing.same_trans ht (Typing.same_symm hsub')))
  | composeForward hsub =>
    cases h' with
    | composeForward hsub' =>
      have hmiddle := Typing.same_trans (Typing.same_symm hsub) (Typing.same_trans hshared hsub')
      exact Typing.same_composed (Typing.same_main ht hshared) hmiddle hu
  | composeBackward hsub =>
    cases h' with
    | composeBackward hsub' =>
      have hmiddle := Typing.same_trans (Typing.same_symm hsub) (Typing.same_trans hshared hsub')
      exact Typing.same_composed (Typing.same_main hu hshared) hmiddle ht
  | skipForward => cases h'; exact hu
  | skipBackward => cases h'; exact ht
  | initiate =>
    cases h'
    exact Typing.same_coordination_iff.2 hu
  | complete => cases h'; exact ht
  | distribute hcoordination =>
    cases h' with
    | distribute hcoordination' =>
      obtain ⟨y, rfl, hsub⟩ := Typing.isCoordinationOf_iff.1 hcoordination
      obtain ⟨y', rfl, hsub'⟩ := Typing.isCoordinationOf_iff.1 hcoordination'
      have hitems := Typing.same_trans (Typing.same_coordination_iff.1 hu) hsub'
      exact Typing.same_main ht (Typing.same_trans (Typing.same_symm hsub) hitems)

/-- Whether results follow a schema: there is at most one, with the name of the rule and a type that
the schema yields. -/
def Follows (rule : BinaryRule) (t u : Typing) (results : List RuleResult) : Prop :=
  results = [] ∨ ∃ s v, rule.Yields t u s ∧ results = [⟨rule.name, s, v⟩]

theorem follows_nil : rule.Follows t u [] := .inl rfl

/-- The answer that a rule gets from its services for two meanings, if it asks for one: rules that
apply, compose or distribute functions ask if there are both meanings, those that start or complete
a coordination if there is one of them. -/
def answer? : BinaryRule → Value → Value → Option (Except Fault Value)
  | application .forward S, v, w => if v.isNone || w.isNone then none else some (S.apply v w)
  | application .backward S, v, w => if v.isNone || w.isNone then none else some (S.apply w v)
  | composition .forward S, v, w => if v.isNone || w.isNone then none else some (S.compose v w)
  | composition .backward S, v, w => if v.isNone || w.isNone then none else some (S.compose w v)
  | initiation (some C), v, w => if v.isNone && w.isNone then none else some (C.initiate v w)
  | completion (some C), v, w => if v.isNone && w.isNone then none else some (C.expand v w)
  | distribution (some C), v, w => if v.isNone || w.isNone then none else some (C.distribute v w)
  | _, _, _ => none

/-- Whether a rule breaks on two categories: their types make it fire, and the answer of its
services refuses to be a key with a fault that is not of a type. -/
def Breaks (rule : BinaryRule) (left right : Category) : Prop :=
  (∃ s, rule.Yields left.type right.type s) ∧ ¬ Answered (rule.answer? left.meaning right.meaning)

section

variable {n : RuleName} {left right : Category} {operation : String}

theorem combine_ok_iff {answer : Except Fault Value} :
    (∃ meaning, (combine n left right answer).result = .ok meaning) ↔
      Answered (if left.meaning.isNone || right.meaning.isNone then none else some answer) := by
  rw [combine]
  cases hleft : left.meaning.isNone with
  | true => cases right.meaning.isNone <;> simp [Answered]
  | false =>
    cases hright : right.meaning.isNone with
    | true => simp [Answered]
    | false =>
      simp only [Answered, Bool.or_self, Bool.and_self, Bool.false_eq_true, if_false,
        Option.some.injEq, Traced.result_bind, Traced.result_pure]
      rw [← askService_ok_iff n.text]
      cases (askService n.text answer).result <;> simp [Except.bind]

theorem askCoordination_ok_iff {C : CoordinationServices}
    {answer : CoordinationServices → Except Fault Value} :
    (∃ meaning, (askCoordination n (some C) operation answer).result = .ok meaning) ↔
      Answered (some (answer C)) := by
  simp only [askCoordination, Answered, Option.some.injEq, Traced.result_bind, Traced.result_pure]
  rw [← askService_ok_iff n.text]
  cases (askService n.text (answer C)).result <;> simp [Except.bind]

theorem coordinate_ok_iff {C : CoordinationServices}
    {answer : CoordinationServices → Except Fault Value} :
    (∃ meaning, (coordinate n left right (some C) operation answer).result = .ok meaning) ↔
      Answered (if left.meaning.isNone && right.meaning.isNone then none
        else some (answer C)) := by
  rw [coordinate]
  split
  · simp [Answered]
  · exact askCoordination_ok_iff

/-- A meaning that two categories have together can be a key. -/
theorem hashable_of_combine {answer : Except Fault Value} {v : Value}
    (h : (combine n left right answer).result = .ok (some v)) : v.hashable = true := by
  rw [combine] at h
  split at h
  · obtain rfl := Option.some.inj (Except.ok.inj h)
    rfl
  · split at h
    · cases h
    · rw [Traced.result_bind] at h
      obtain ⟨w, hw, h⟩ := bind_eq_ok.1 h
      rw [Traced.result_pure, Except.ok.injEq] at h
      split at h
      · cases h
      · obtain rfl := Option.some.inj h
        exact hashable_of_askService hw

theorem hashable_of_askCoordination {C : Option CoordinationServices}
    {answer : CoordinationServices → Except Fault Value} {v : Value}
    (h : (askCoordination n C operation answer).result = .ok (some v)) : v.hashable = true := by
  cases C with
  | none => cases h
  | some C =>
    rw [askCoordination, Traced.result_bind] at h
    obtain ⟨w, hw, h⟩ := bind_eq_ok.1 h
    rw [Traced.result_pure, Except.ok.injEq] at h
    split at h
    · cases h
    · obtain rfl := Option.some.inj h
      exact hashable_of_askService hw

theorem hashable_of_coordinate {C : Option CoordinationServices}
    {answer : CoordinationServices → Except Fault Value} {v : Value}
    (h : (coordinate n left right C operation answer).result = .ok (some v)) :
    v.hashable = true := by
  rw [coordinate] at h
  split at h
  · obtain rfl := Option.some.inj (Except.ok.inj h)
    rfl
  · exact hashable_of_askCoordination h

end

/-- Whether results can be keys if the categories that they are made of can. -/
def KeepsKeys (left right : Category) (results : List RuleResult) : Prop :=
  left.hashable = true → right.hashable = true → ∀ r ∈ results, r.category.hashable = true

theorem keepsKeys_nil {left right : Category} : KeepsKeys left right [] := by
  intro _ _ r hr
  cases hr

/-- Whether an outcome follows a schema. It is a fault only if the rule breaks, or of a coordination
of a nameless type. -/
def FollowsOrFails (rule : BinaryRule) (left right : Category)
    (outcome : Except Fault (List RuleResult)) : Prop :=
  (∃ results, outcome = .ok results ∧ rule.Follows left.type right.type results ∧
      KeepsKeys left right results ∧ ¬ rule.Breaks left right) ∨
    ∃ fault, outcome = .error fault ∧ (rule.Breaks left right ∨ right.type = none)

variable {left right : Category}

/-- A rule that the types do not make fire gives nothing. -/
theorem followsOrFails_nil (h : ∀ s, ¬ rule.Yields left.type right.type s) :
    rule.FollowsOrFails left right (.ok []) :=
  .inl ⟨[], rfl, follows_nil, keepsKeys_nil, fun hbreaks => hbreaks.1.elim h⟩

/-- A rule that asks for a meaning and gives the type of its schema follows the schema. -/
theorem Yields.follows_bind (h : rule.Yields left.type right.type s) {asked : Traced (Option Value)}
    (hasked : (∃ meaning, asked.result = .ok meaning) ↔
      Answered (rule.answer? left.meaning right.meaning))
    (hkeys : ∀ v, asked.result = .ok (some v) → v.hashable = true)
    {next : Option Value → Traced (List RuleResult)} (hnone : (next none).result = .ok [])
    (hsome : ∀ v, (next (some v)).result = .ok [⟨rule.name, s, v⟩]) :
    rule.FollowsOrFails left right (asked >>= next).result := by
  rw [Traced.result_bind]
  cases hresult : asked.result with
  | error fault =>
    refine .inr ⟨fault, rfl, .inl ⟨⟨s, h⟩, fun hanswered => ?_⟩⟩
    obtain ⟨meaning, hmeaning⟩ := hasked.2 hanswered
    rw [hresult] at hmeaning
    cases hmeaning
  | ok meaning =>
    have hsound : ¬ rule.Breaks left right := fun hbreaks => hbreaks.2 (hasked.1 ⟨meaning, hresult⟩)
    cases meaning with
    | none => exact .inl ⟨[], hnone, follows_nil, keepsKeys_nil, hsound⟩
    | some v =>
      refine .inl ⟨_, hsome v, .inr ⟨s, v, h, rfl⟩, fun _ _ r hr => ?_, hsound⟩
      rw [List.mem_singleton.1 hr]
      exact hkeys v hresult

/-- What the rules do follows their schemas, whatever their services do. -/
theorem apply_follows (h : rule.Schematic) (left right : Category) :
    rule.FollowsOrFails left right (rule.apply left right).result := by
  obtain ⟨t, v⟩ := left
  obtain ⟨u, w⟩ := right
  cases h with
  | application d S =>
    cases d with
    | forward =>
      simp only [apply]
      split
      · split
        · rename_i hsub
          exact (Yields.applyForward hsub).follows_bind combine_ok_iff
            (fun _ => hashable_of_combine) rfl fun _ => rfl
        · rename_i hsub
          exact followsOrFails_nil fun s hs => by cases hs; contradiction
      · rename_i hother
        exact followsOrFails_nil fun s hs => by cases hs; exact hother _ _ rfl
    | backward =>
      simp only [apply]
      split
      · split
        · rename_i hsub
          exact (Yields.applyBackward hsub).follows_bind combine_ok_iff
            (fun _ => hashable_of_combine) rfl fun _ => rfl
        · rename_i hsub
          exact followsOrFails_nil fun s hs => by cases hs; contradiction
      · rename_i hother
        exact followsOrFails_nil fun s hs => by cases hs; exact hother _ _ rfl
  | composition d S =>
    cases d with
    | forward =>
      simp only [apply]
      split
      · split
        · rename_i hsub
          refine Yields.follows_bind (.composeForward ?_) combine_ok_iff
            (fun _ => hashable_of_combine) rfl fun _ => rfl
          exact Typing.same_some_iff.2 (same_iff.1 hsub)
        · rename_i hsub
          refine followsOrFails_nil fun s hs => ?_
          cases hs with
          | composeForward h => exact hsub (same_iff.2 (Typing.same_some_iff.1 h))
      · rename_i hother
        exact followsOrFails_nil fun s hs => by cases hs; exact hother _ _ _ _ rfl rfl
    | backward =>
      simp only [apply]
      split
      · split
        · rename_i hsub
          refine Yields.follows_bind (.composeBackward ?_) combine_ok_iff
            (fun _ => hashable_of_combine) rfl fun _ => rfl
          exact Typing.same_some_iff.2 (same_iff.1 hsub)
        · rename_i hsub
          refine followsOrFails_nil fun s hs => ?_
          cases hs with
          | composeBackward h => exact hsub (same_iff.2 (Typing.same_some_iff.1 h))
      · rename_i hother
        exact followsOrFails_nil fun s hs => by cases hs; exact hother _ _ _ _ rfl rfl
  | skipping d =>
    have hquiet : ¬ (skipping d).Breaks ⟨t, v⟩ ⟨u, w⟩ := fun hbreaks => hbreaks.2 fun _ h => by
      cases d <;> cases h
    cases d with
    | forward =>
      simp only [apply]
      split
      · rename_i hempty
        refine .inl ⟨_, rfl, .inr ⟨_, _, .skipForward hempty, rfl⟩, fun _ hright r hr => ?_, hquiet⟩
        rwa [List.mem_singleton.1 hr]
      · exact .inl ⟨_, rfl, follows_nil, keepsKeys_nil, hquiet⟩
    | backward =>
      simp only [apply]
      split
      · rename_i hempty
        refine .inl ⟨_, rfl, .inr ⟨_, _, .skipBackward hempty, rfl⟩, fun hleft _ r hr => ?_, hquiet⟩
        rwa [List.mem_singleton.1 hr]
      · exact .inl ⟨_, rfl, follows_nil, keepsKeys_nil, hquiet⟩
  | initiation C =>
    rw [apply]
    split
    · rename_i hconj
      refine followsOrFails_nil fun s hs => ?_
      cases hs with
      | initiate h => simp [h] at hconj
    · rename_i hconj
      split
      · rename_i hitem
        refine followsOrFails_nil fun s hs => ?_
        cases hs with
        | initiate _ hconj' hcoordination hempty =>
          simp [hconj', hcoordination, Category.isEmpty, hempty] at hitem
      · rename_i hitem
        simp only [Bool.not_eq_true, Bool.not_eq_false', Bool.or_eq_false_iff] at hconj hitem
        cases u with
        | none =>
          -- services may still refuse what cannot be coordinated
          have hquiet : ¬ (initiation (some C)).Breaks ⟨t, v⟩ ⟨none, w⟩ := by
            rintro ⟨⟨s, hs⟩, -⟩
            cases hs
          rw [Traced.result_bind]
          cases (coordinate _ _ _ (some C) _ _).result with
          | error fault => exact .inr ⟨fault, rfl, .inr rfl⟩
          | ok meaning =>
            cases meaning with
            | none => exact .inl ⟨[], rfl, follows_nil, keepsKeys_nil, hquiet⟩
            | some v => exact .inr ⟨_, rfl, .inr rfl⟩
        | some x =>
          exact (Yields.initiate hconj hitem.1.1 hitem.1.2 hitem.2).follows_bind
            coordinate_ok_iff (fun _ => hashable_of_coordinate) rfl fun _ => rfl
  | completion C =>
    simp only [apply]
    split
    · rename_i hcoordination
      exact (Yields.complete hcoordination).follows_bind coordinate_ok_iff
        (fun _ => hashable_of_coordinate) rfl fun _ => rfl
    · exact followsOrFails_nil fun s hs => by cases hs; contradiction
  | distribution C =>
    simp only [apply]
    split
    · split
      · rename_i hnone
        -- without both meanings the services are not asked
        refine .inl ⟨[], rfl, follows_nil, keepsKeys_nil, fun hbreaks => hbreaks.2 fun _ h => ?_⟩
        simp [answer?, hnone] at h
      · rename_i hboth
        split
        · rename_i hcoordination
          refine (Yields.distribute hcoordination).follows_bind ?_
            (fun _ => hashable_of_askCoordination) rfl fun _ => rfl
          rw [answer?, if_neg hboth]
          exact askCoordination_ok_iff
        · exact followsOrFails_nil fun s hs => by cases hs; contradiction
    · rename_i hother
      exact followsOrFails_nil fun s hs => by cases hs; exact hother _ _ rfl

/-- A rule gives at most one result, of the type of its schema. -/
theorem follows_of_apply (h : rule.Schematic) {left right : Category} {results : List RuleResult}
    (hresults : (rule.apply left right).result = .ok results) :
    rule.Follows left.type right.type results := by
  rcases apply_follows h left right with ⟨results', hok, hfollows, -⟩ | ⟨fault, hfault, -⟩
  · obtain rfl := Except.ok.inj (hresults.symm.trans hok)
    exact hfollows
  · rw [hresults] at hfault
    cases hfault

/-- On categories that can be keys, what a rule gives can be keys. -/
theorem regular_of_schematic (h : rule.Schematic) {left right : Category}
    (hleft : left.hashable = true) (hright : right.hashable = true) :
    Grammar.Regular (rule.apply left right) := by
  intro results hresults r hr
  rcases apply_follows h left right with ⟨results', hok, -, hkeys, -⟩ | ⟨fault, hfault, -⟩
  · obtain rfl := Except.ok.inj (hresults.symm.trans hok)
    exact .of_hashable (hkeys hleft hright r hr)
  · rw [hresults] at hfault
    cases hfault

/-- On a type with a name on its right a rule fails exactly if it breaks. -/
theorem apply_ok_iff (h : rule.Schematic) {left right : Category} {u : SyntaxType}
    (hright : right.type = some u) :
    (∃ results, (rule.apply left right).result = .ok results) ↔ ¬ rule.Breaks left right := by
  rcases apply_follows h left right with ⟨results, hok, -, -, hsound⟩ | ⟨fault, hfault, hbreaks⟩
  · exact iff_of_true ⟨results, hok⟩ hsound
  · refine iff_of_false ?_ (not_not.2 (hbreaks.resolve_right ?_))
    · rintro ⟨results, hok⟩
      rw [hok] at hfault
      cases hfault
    · rw [hright]
      exact Option.some_ne_none u

/-- On arguments of types that are the same a rule gives types that are the same, if a composition
goes through types that are the same. -/
theorem same_of_apply (h : rule.Schematic) {left right left' right' : Category}
    {results results' : List RuleResult} {given given' : RuleResult}
    (hleft : left.type.same left'.type = true) (hright : right.type.same right'.type = true)
    (hshared : (rule.shared left.type right.type).same (rule.shared left'.type right'.type) = true)
    (hresults : (rule.apply left right).result = .ok results) (hgiven : given ∈ results)
    (hresults' : (rule.apply left' right').result = .ok results') (hgiven' : given' ∈ results') :
    given.rule = given'.rule ∧ given.category.type.same given'.category.type = true := by
  rcases follows_of_apply h hresults with rfl | ⟨s, m, hyields, rfl⟩
  · cases hgiven
  rcases follows_of_apply h hresults' with rfl | ⟨s', m', hyields', rfl⟩
  · cases hgiven'
  obtain rfl := List.mem_singleton.1 hgiven
  obtain rfl := List.mem_singleton.1 hgiven'
  exact ⟨rfl, hyields.same hyields' hleft hright hshared⟩

end BinaryRule

namespace UnaryRule

/-- The answer that a rule gets from its function for a meaning, if it asks for one. -/
def answer? : UnaryRule → Value → Option (Except Fault Value)
  | shift I _ _ _ function, v =>
    if function.isNone || v.isNone then none else some (function.call I v)
  | custom .., _ => none

/-- Whether a rule that shifts types breaks on a category: it fires, and the answer of its function
refuses to be a key with a fault that is not of a type. -/
def Breaks : UnaryRule → Category → Prop
  | rule@(shift _ _ source _ _), c =>
    c.type.same source = true ∧ ¬ Answered (rule.answer? c.meaning)
  | custom .., _ => False

variable {I : Interpretation} {label : String} {source target : Typing} {function : Value}
  {c : Category}

/-- A rule that shifts types fails exactly if it breaks, and gives at most its target, for its
source; what it gives can be a key if the category can. -/
theorem shift_follows (I : Interpretation) (label : String) (source target : Typing)
    (function : Value) (c : Category) :
    (∃ results, ((shift I label source target function).apply c).result = .ok results ∧
      (results = [] ∨
        c.type.same source = true ∧ ∃ v, results = [⟨⟨label, .forward⟩, target, v⟩] ∧
          (c.hashable = true → v.hashable = true)) ∧
      ¬ (shift I label source target function).Breaks c) ∨
    ∃ fault, ((shift I label source target function).apply c).result = .error fault ∧
      (shift I label source target function).Breaks c := by
  rw [apply, Breaks, answer?]
  split
  · rename_i hsource
    split
    · rename_i hplain
      refine .inl ⟨_, rfl, .inr ⟨hsource, c.meaning, rfl, fun h => h⟩, ?_⟩
      simp [Answered]
    · rename_i hasks
      rw [Traced.result_bind]
      cases hasked : (askService (shift I label source target function).name.text
          (function.call I c.meaning)).result with
      | error fault =>
        refine .inr ⟨fault, rfl, hsource, fun hanswered => ?_⟩
        obtain ⟨v, hv⟩ := (askService_ok_iff _).2 fun v hv => hanswered v (congrArg some hv)
        rw [hasked] at hv
        cases hv
      | ok v =>
        refine .inl ⟨if v.isNone then [] else [⟨⟨label, .forward⟩, target, v⟩], rfl, ?_, ?_⟩
        · cases v.isNone with
          | true => exact .inl rfl
          | false => exact .inr ⟨hsource, v, rfl, fun _ => hashable_of_askService hasked⟩
        · rintro ⟨-, hanswered⟩
          refine hanswered fun w hw => ?_
          exact (askService_ok_iff _).1 ⟨v, hasked⟩ w (Option.some.inj hw)
  · rename_i hsource
    exact .inl ⟨_, rfl, .inl rfl, fun hbreaks => hsource hbreaks.1⟩

theorem shift_ok_iff : (∃ results, ((shift I label source target function).apply c).result =
    .ok results) ↔ ¬ (shift I label source target function).Breaks c := by
  rcases shift_follows I label source target function c with
    ⟨results, hok, -, hsound⟩ | ⟨fault, hfault, hbreaks⟩
  · exact iff_of_true ⟨results, hok⟩ hsound
  · refine iff_of_false ?_ (not_not.2 hbreaks)
    rintro ⟨results, hok⟩
    rw [hok] at hfault
    cases hfault

theorem follows_of_shift {results : List RuleResult}
    (h : ((shift I label source target function).apply c).result = .ok results) :
    results = [] ∨ c.type.same source = true ∧ ∃ v, results = [⟨⟨label, .forward⟩, target, v⟩] ∧
      (c.hashable = true → v.hashable = true) := by
  rcases shift_follows I label source target function c with
    ⟨results', hok, hfollows, -⟩ | ⟨fault, hfault, -⟩
  · obtain rfl := Except.ok.inj (h.symm.trans hok)
    exact hfollows
  · rw [h] at hfault
    cases hfault

/-- On a category that can be a key, what a rule that shifts types gives can be a key. -/
theorem regular_shift (hc : c.hashable = true) :
    Grammar.Regular ((shift I label source target function).apply c) := by
  intro results hresults r hr
  rcases follows_of_shift hresults with rfl | ⟨-, v, rfl, hkey⟩
  · cases hr
  · rw [List.mem_singleton.1 hr]
    exact .of_hashable (hkey hc)

end UnaryRule

namespace Grammar

/-- What is left of an application of a rule: the results whose meanings can be keys, and nothing if
it failed. -/
def contribution (outcome : Traced (List RuleResult)) : List RuleResult :=
  match outcome.result with
  | .ok results => results.filter fun r => r.category.hashable
  | .error _ => []

theorem isolate_result {rule : RuleName} {cs : List Category} {outcome : Traced (List RuleResult)}
    (h : Regular outcome) : (isolate rule cs outcome).result = .ok (contribution outcome) := by
  rw [isolate, contribution]
  split
  · rename_i hfault
    rw [hfault]
  · rename_i results hresults
    rw [hresults]
    exact keepKeys_of_refusesByType (h results hresults)

/-- What steps contribute is collected in their order. -/
theorem collect_result {α : Type} {step : α → Traced (List RuleResult)}
    {given : α → List RuleResult} {as : List α} (h : ∀ a ∈ as, (step a).result = .ok (given a)) :
    (collect step as).result = .ok (as.flatMap given) := by
  induction as with
  | nil => rfl
  | cons a as ih =>
    rw [List.forall_mem_cons] at h
    simp [collect, h.1, ih h.2, Except.bind]

theorem applyBinary_result {g : Grammar} {left right : Category}
    (h : ∀ rule ∈ g.binary, Regular (rule.apply left right)) :
    (g.applyBinary left right).result =
      .ok (g.binary.flatMap fun rule => contribution (rule.apply left right)) :=
  collect_result fun rule hrule => isolate_result (h rule hrule)

theorem applyUnary_result {g : Grammar} {c : Category}
    (h : ∀ rule ∈ g.unary, Regular (rule.apply c)) :
    (g.applyUnary c).result = .ok (g.unary.flatMap fun rule => contribution (rule.apply c)) :=
  collect_result fun rule hrule => isolate_result (h rule hrule)

theorem applyBinary_singleton {rule : BinaryRule} {left right : Category}
    (h : Regular (rule.apply left right)) :
    ((⟨[rule], []⟩ : Grammar).applyBinary left right).result =
      .ok (contribution (rule.apply left right)) := by
  rw [applyBinary_result fun rule' hrule => List.mem_singleton.1 hrule ▸ h,
    List.flatMap_singleton]

theorem applyUnary_singleton {rule : UnaryRule} {c : Category} (h : Regular (rule.apply c)) :
    ((⟨[], [rule]⟩ : Grammar).applyUnary c).result = .ok (contribution (rule.apply c)) := by
  rw [applyUnary_result fun rule' hrule => List.mem_singleton.1 hrule ▸ h, List.flatMap_singleton]

/-- What a grammar gives for two categories, if no rule gives a result that refuses to be a key with
a fault that is not of a type, is what its rules give alone, one after the other, and all of it can
be keys. -/
theorem applyBinary_isolated {g : Grammar} {left right : Category} {results : List RuleResult}
    (h : (g.applyBinary left right).result = .ok results) :
    (∃ alone : BinaryRule → List RuleResult,
      (∀ rule ∈ g.binary, ((⟨[rule], []⟩ : Grammar).applyBinary left right).result =
        .ok (alone rule)) ∧ results = g.binary.flatMap alone) ∧
    ∀ r ∈ results, r.category.hashable = true := by
  have hregular := applyBinary_ok_iff.1 ⟨results, h⟩
  refine ⟨⟨fun rule => contribution (rule.apply left right),
    fun rule hrule => applyBinary_singleton (hregular rule hrule), ?_⟩,
    fun r hr => ((mem_applyBinary h).1 hr).2⟩
  exact Except.ok.inj (h.symm.trans (applyBinary_result hregular))

theorem applyUnary_isolated {g : Grammar} {c : Category} {results : List RuleResult}
    (h : (g.applyUnary c).result = .ok results) :
    (∃ alone : UnaryRule → List RuleResult,
      (∀ rule ∈ g.unary, ((⟨[], [rule]⟩ : Grammar).applyUnary c).result = .ok (alone rule)) ∧
        results = g.unary.flatMap alone) ∧
    ∀ r ∈ results, r.category.hashable = true := by
  have hregular := applyUnary_ok_iff.1 ⟨results, h⟩
  refine ⟨⟨fun rule => contribution (rule.apply c),
    fun rule hrule => applyUnary_singleton (hregular rule hrule), ?_⟩,
    fun r hr => ((mem_applyUnary h).1 hr).2⟩
  exact Except.ok.inj (h.symm.trans (applyUnary_result hregular))

/-- A rule that follows a schema fails, if the type of its right argument has a name, exactly if it
breaks, that is, if the answer of its services refuses to be a key with a fault that is not of a
type; otherwise it gives at most one result, whatever its services do, and the type of the result is
that of the schema. On equal types it gives equal types; a composition does so if the types that it
composes through are equal as well. A rule that follows a schema never keeps a grammar from giving
its results, on categories that can be keys; a grammar of any rules fails exactly if one of them
gives a result that refuses to be a key with a fault that is not of a type, and otherwise gives the
results that its rules give alone, one rule after the other; all of them can be keys, and a rule
that fails gives none. -/
theorem rules_isolated (g : Grammar) (left right c : Category) :
    (∀ rule : BinaryRule, rule.Schematic →
      (∀ u, right.type = some u →
        ((∃ fault, (rule.apply left right).result = .error fault) ↔ rule.Breaks left right)) ∧
      (∀ results, (rule.apply left right).result = .ok results →
        rule.Follows left.type right.type results) ∧
      (∀ (left' right' : Category) (results results' : List RuleResult),
        left.type.same left'.type = true → right.type.same right'.type = true →
        (rule.shared left.type right.type).same (rule.shared left'.type right'.type) = true →
        (rule.apply left right).result = .ok results →
        (rule.apply left' right').result = .ok results' →
        ∀ given ∈ results, ∀ given' ∈ results',
          given.rule = given'.rule ∧ given.category.type.same given'.category.type = true) ∧
      (left.hashable = true → right.hashable = true → Regular (rule.apply left right))) ∧
    (∀ (I : Interpretation) (label : String) (source target : Typing) (function : Value),
      ((∃ fault, ((UnaryRule.shift I label source target function).apply c).result =
          .error fault) ↔ (UnaryRule.shift I label source target function).Breaks c) ∧
      (∀ results, ((UnaryRule.shift I label source target function).apply c).result =
          .ok results →
        results = [] ∨
          c.type.same source = true ∧ ∃ v, results = [⟨⟨label, .forward⟩, target, v⟩]) ∧
      (c.hashable = true → Regular ((UnaryRule.shift I label source target function).apply c))) ∧
    (((∃ fault, (g.applyBinary left right).result = .error fault) ↔
        ∃ rule ∈ g.binary, ¬ Regular (rule.apply left right)) ∧
      ∀ results, (g.applyBinary left right).result = .ok results →
        (∃ alone : BinaryRule → List RuleResult,
          (∀ rule ∈ g.binary, ((⟨[rule], []⟩ : Grammar).applyBinary left right).result =
            .ok (alone rule)) ∧ results = g.binary.flatMap alone) ∧
        ∀ r ∈ results, r.category.hashable = true) ∧
    ((∃ fault, (g.applyUnary c).result = .error fault) ↔
        ∃ rule ∈ g.unary, ¬ Regular (rule.apply c)) ∧
      ∀ results, (g.applyUnary c).result = .ok results →
        (∃ alone : UnaryRule → List RuleResult,
          (∀ rule ∈ g.unary, ((⟨[], [rule]⟩ : Grammar).applyUnary c).result = .ok (alone rule)) ∧
            results = g.unary.flatMap alone) ∧
        ∀ r ∈ results, r.category.hashable = true := by
  refine ⟨fun rule h => ⟨fun u hu => ?_, fun _ => BinaryRule.follows_of_apply h, ?_,
      BinaryRule.regular_of_schematic h⟩,
    fun I label source target function => ⟨?_, fun results hresults => ?_,
      UnaryRule.regular_shift⟩,
    ⟨?_, fun _ => applyBinary_isolated⟩, ?_, fun _ => applyUnary_isolated⟩
  · rw [exists_error_iff, BinaryRule.apply_ok_iff h hu, not_not]
  · intro left' right' results results' hleft hright hshared hresults hresults' given hgiven
      given' hgiven'
    exact BinaryRule.same_of_apply h hleft hright hshared hresults hgiven hresults' hgiven'
  · rw [exists_error_iff, UnaryRule.shift_ok_iff, not_not]
  · rcases UnaryRule.follows_of_shift hresults with hnone | ⟨hsource, v, hv, -⟩
    · exact .inl hnone
    · exact .inr ⟨hsource, v, hv⟩
  · rw [exists_error_iff, applyBinary_ok_iff]
    simp only [not_forall, exists_prop]
  · rw [exists_error_iff, applyUnary_ok_iff]
    simp only [not_forall, exists_prop]

/-- A rule that fails before one that applies functions: what is left are the results of the second
rule, of one type for two functions with their arguments, and they can be keys. -/
theorem rules_isolated_failing :
    let failing : BinaryRule := .custom "Failing" ⟨"fail", .forward⟩ fun _ _ =>
      .error (.raised .zeroDivision "division by zero")
    let rule : BinaryRule := .application .forward (.calling .stock Services.usualRejections)
    let shift : UnaryRule := .shift .stock "phrase" (some (.primitive "N")) (some (.primitive "NP"))
      (.func ⟨"h", .named, .tag none⟩ [] [])
    let grammar : Grammar := ⟨[failing, rule], [shift]⟩
    let tag (name : String) : Value := .func ⟨name, .named, .tag none⟩ [] []
    let t : Typing := some (.slash .forward (.primitive "S") (.primitive "NP"))
    let u : Typing := some (.primitive "NP")
    let f : Category := ⟨t, tag "f"⟩
    let g : Category := ⟨t, tag "g"⟩
    let a : Category := ⟨u, .text "a"⟩
    let b : Category := ⟨u, .text "b"⟩
    let noun : Category := ⟨some (.primitive "N"), .text "c"⟩
    ∃ results results' shifted, rule.Schematic ∧ results.length = 1 ∧ results'.length = 1 ∧
      shifted.length = 1 ∧ (rule.apply f a).result = .ok results ∧
      (rule.apply g b).result = .ok results' ∧ ¬ rule.Breaks f a ∧ rule.Follows t u results ∧
      (∀ given ∈ results, ∀ given' ∈ results',
        given.rule = given'.rule ∧ given.category.type.same given'.category.type = true) ∧
      Regular (rule.apply f a) ∧ Regular (shift.apply noun) ∧
      (grammar.applyBinary f a).result = .ok results ∧
      (∀ r ∈ results, r.category.hashable = true) ∧
      (grammar.applyUnary noun).result = .ok shifted ∧
      ∀ r ∈ shifted, r.category.hashable = true := by
  intro failing rule shift grammar tag t u f g a b noun
  have hrule : rule.Schematic := .application _ _
  obtain ⟨hbinary, hunary, ⟨-, hpairs⟩, -, hsingles⟩ := rules_isolated grammar f a noun
  obtain ⟨hbreaks, hfollows, hdriven, hregular⟩ := hbinary rule hrule
  obtain ⟨-, -, hshift⟩ := hunary .stock "phrase" (some (.primitive "N")) (some (.primitive "NP"))
    (.func ⟨"h", .named, .tag none⟩ [] [])
  have hends : ¬ rule.Breaks f a := by
    rw [← hbreaks _ rfl]
    rintro ⟨fault, hfault⟩
    cases hfault
  exact ⟨_, _, _, hrule, rfl, rfl, rfl, rfl, rfl, hends, hfollows _ rfl,
    hdriven g b _ _ rfl rfl rfl rfl rfl, hregular rfl rfl, hshift rfl, rfl, (hpairs _ rfl).2, rfl,
    (hsingles _ rfl).2⟩

/-- A meaning that refuses to be a key with a fault of a value escapes from the rule that a function
gives it to, and a rule that gives it ends the application of a grammar. Besides, types with one
name that are built in two ways are composed through two types. -/
theorem rules_not_isolated :
    let object : Value := .foreign ⟨0, "memoryview", "<memory>",
      some (.raised .value "cannot hash writable memoryview object")⟩
    let noun : Category := ⟨some (.primitive "N"), .text "a"⟩
    let shift : UnaryRule := .shift .stock "view" noun.type (some (.primitive "NP"))
      (.func ⟨"f", .named, .const⟩ [object] [])
    let viewing : BinaryRule := .custom "Viewing" ⟨"view", .forward⟩ fun left _ =>
      .ok [⟨⟨"view", .forward⟩, ⟨left.type, object⟩⟩]
    let rule : BinaryRule := .composition .forward (.calling .stock Services.usualRejections)
    let X : SyntaxType := .primitive "X"
    let Q : SyntaxType := .primitive "Q"
    let left : SyntaxType := .slash .forward (.slash .forward X Q) Q
    let right : SyntaxType := .slash .forward Q (.primitive "Q/R")
    let left' : SyntaxType := .slash .forward X (.primitive "Q/Q")
    let right' : SyntaxType := .slash .forward (.slash .forward Q Q) (.primitive "R")
    (∃ fault, (shift.apply noun).result = .error fault ∧ fault.kind = .value) ∧
    (∃ fault, ((⟨[viewing], []⟩ : Grammar).applyBinary noun noun).result = .error fault ∧
      fault.kind = .value) ∧
    left.same left' = true ∧ right.same right' = true ∧
    ∃ given given', (rule.apply ⟨some left, .none⟩ ⟨some right, .none⟩).result = .ok [given] ∧
      (rule.apply ⟨some left', .none⟩ ⟨some right', .none⟩).result = .ok [given'] ∧
      given.category.type.same given'.category.type = false :=
  ⟨⟨_, rfl, rfl⟩, ⟨_, rfl, rfl⟩, by decide, by decide, _, _, rfl, rfl, by decide⟩

end Grammar

end Categorial
