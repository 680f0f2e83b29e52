import Categorial.Proofs.Rule.Schema
import Categorial.Proofs.SyntaxType.Mirror

/-!
Rules in a mirror. Application, composition and the rules that absorb skipped tokens come in two
directions; the services are asked for the function first in both. Main statement: on mirrored
categories in the other order, the rule of the other direction gives the mirrored results.
-/

namespace Categorial

/-- The name with the other direction. -/
def RuleName.flip (r : RuleName) : RuleName := ⟨r.label, r.direction.flip⟩

@[simp] theorem RuleName.flip_flip (r : RuleName) : r.flip.flip = r := by simp [flip]

/-- The category of the mirrored type with the same meaning. -/
def Category.mirror (c : Category) : Category := ⟨c.type.mirror, c.meaning⟩

@[simp] theorem Category.mirror_type (c : Category) : c.mirror.type = c.type.mirror := rfl

@[simp] theorem Category.mirror_meaning (c : Category) : c.mirror.meaning = c.meaning := rfl

@[simp] theorem Category.mirror_mirror (c : Category) : c.mirror.mirror = c := by simp [mirror]

@[simp] theorem Category.mirror_same (a b : Category) : a.mirror.same b.mirror = a.same b := by
  simp [same]

@[simp] theorem Category.keyFault?_mirror (c : Category) : c.mirror.keyFault? = c.keyFault? := rfl

@[simp] theorem Category.isEmpty_mirror (c : Category) : c.mirror.isEmpty = c.isEmpty := by
  simp [isEmpty]

/-- The mirrored result of the rule of the other direction. -/
def RuleResult.mirror (r : RuleResult) : RuleResult := ⟨r.rule.flip, r.category.mirror⟩

@[simp] theorem RuleResult.mirror_mirror (r : RuleResult) : r.mirror.mirror = r := by
  simp [mirror]

namespace BinaryRule

/-- The rule of the other direction; a rule without one is its own. -/
def mirror : BinaryRule → BinaryRule
  | application d S => application d.flip S
  | composition d S => composition d.flip S
  | skipping d => skipping d.flip
  | rule => rule

/-- The rules that come in two directions, with some services. -/
inductive Sided (S : Services) : BinaryRule → Prop
  | application (d : Direction) : Sided S (application d S)
  | composition (d : Direction) : Sided S (composition d S)
  | skipping (d : Direction) : Sided S (skipping d)

variable {S : Services} {rule rule' : BinaryRule} {left right : Category}

theorem Sided.schematic (h : rule.Sided S) : rule.Schematic := by
  cases h with
  | application d => exact .application d S
  | composition d => exact .composition d S
  | skipping d => exact .skipping d

theorem Sided.name_mirror (h : rule.Sided S) : rule.mirror.name = rule.name.flip := by
  cases h <;> rfl

/-- Sided rules of one name are one rule. -/
theorem Sided.eq_of_name (h : rule.Sided S) (h' : rule'.Sided S) (hname : rule.name = rule'.name) :
    rule = rule' := by
  cases h <;> cases h' <;> simp_all [name]

/-- What services give does not depend on the rule that asks them. -/
theorem askService_result_eq (text text' : String) (answer : Except Fault Value) :
    (askService text answer).result = (askService text' answer).result := by
  cases answer with
  | error fault => rfl
  | ok v =>
    simp only [askService, Traced.result_bind, Traced.result_ofExcept]
    cases v.checkKey with
    | error fault => rfl
    | ok key => cases key <;> rfl

/-- The meaning of two categories together is that of the mirrored ones in the other order. -/
theorem combine_mirror (name name' : RuleName) (left right : Category)
    (answer : Except Fault Value) : (combine name' right.mirror left.mirror answer).result =
      (combine name left right answer).result := by
  simp only [combine, Category.mirror_meaning, Bool.and_comm right.meaning.isNone,
    Bool.or_comm right.meaning.isNone]
  split
  · rfl
  · split
    · rfl
    · rw [Traced.result_bind, Traced.result_bind, askService_result_eq name'.text name.text]

theorem map_mirror_single (name : RuleName) (type : SyntaxType) (meaning : Option Value) :
    (single name type meaning).map RuleResult.mirror = single name.flip type.mirror meaning := by
  cases meaning <;> rfl

theorem result_single_mirror (name : RuleName) (type : SyntaxType) (left right : Category)
    (answer : Except Fault Value) :
    (do
      let meaning ← combine name.flip right.mirror left.mirror answer
      return single name.flip type.mirror meaning : Traced (List RuleResult)).result =
    (do
      let meaning ← combine name left right answer
      return single name type meaning : Traced (List RuleResult)).result.map
        (List.map RuleResult.mirror) := by
  rw [Traced.result_bind, Traced.result_bind, combine_mirror name]
  cases (combine name left right answer).result with
  | error fault => rfl
  | ok meaning => exact congrArg Except.ok (map_mirror_single name type meaning).symm

/-- A rule that looks to the right and the one that looks to the left mirror each other if one of
them mirrors the other. -/
theorem apply_mirror_of_mirrored (h : ∀ left right : Category,
      (rule.mirror.apply right.mirror left.mirror).result =
        (rule.apply left right).result.map (List.map RuleResult.mirror))
    (hmirror : rule.mirror.mirror = rule) (left right : Category) :
    (rule.mirror.mirror.apply right.mirror left.mirror).result =
      (rule.mirror.apply left right).result.map (List.map RuleResult.mirror) := by
  have hback := h right.mirror left.mirror
  rw [Category.mirror_mirror, Category.mirror_mirror] at hback
  rw [hmirror, hback]
  cases (rule.apply right.mirror left.mirror).result with
  | error fault => rfl
  | ok results => simp [Except.map, Function.comp_def]

theorem application_mirror (left right : Category) :
    ((application .forward S).mirror.apply right.mirror left.mirror).result =
      ((application .forward S).apply left right).result.map (List.map RuleResult.mirror) := by
  obtain ⟨t, v⟩ := left
  rcases t with _ | _ | _ | ⟨_ | _, x, y⟩ | _
  case some.slash.forward =>
    have hsub : Typing.same (some y.mirror) right.type.mirror = Typing.same (some y) right.type :=
      Typing.mirror_same (some y) right.type
    simp only [mirror, apply, Category.mirror, Typing.mirror_some, SyntaxType.mirror,
      Direction.flip, hsub]
    split
    · exact result_single_mirror (application .forward S).name x ⟨some (.slash .forward x y), v⟩
        right (S.apply v right.meaning)
    · rfl
  all_goals rfl

theorem composition_mirror (left right : Category) :
    ((composition .forward S).mirror.apply right.mirror left.mirror).result =
      ((composition .forward S).apply left right).result.map (List.map RuleResult.mirror) := by
  obtain ⟨t, v⟩ := left
  obtain ⟨u, w⟩ := right
  rcases t with _ | _ | _ | ⟨_ | _, x, y⟩ | _
  case some.slash.forward =>
    rcases u with _ | _ | _ | ⟨_ | _, y', z⟩ | _
    case some.slash.forward =>
      simp only [mirror, apply, Category.mirror, Typing.mirror_some, SyntaxType.mirror,
        Direction.flip, SyntaxType.mirror_same]
      split
      · exact result_single_mirror (composition .forward S).name (.slash .forward x z)
          ⟨some (.slash .forward x y), v⟩ ⟨some (.slash .forward y' z), w⟩ (S.compose v w)
      · rfl
    all_goals rfl
  all_goals
    rcases u with _ | _ | _ | ⟨_ | _, y', z⟩ | _ <;> rfl

theorem skipping_mirror (left right : Category) :
    ((skipping .forward).mirror.apply right.mirror left.mirror).result =
      ((skipping .forward).apply left right).result.map (List.map RuleResult.mirror) := by
  simp only [mirror, Direction.flip, apply, Category.isEmpty_mirror, Traced.result_pure, Except.map]
  split <;> rfl

/-- On mirrored categories in the other order, the rule of the other direction gives the mirrored
results. -/
theorem Sided.apply_mirror (h : rule.Sided S) (left right : Category) :
    (rule.mirror.apply right.mirror left.mirror).result =
      (rule.apply left right).result.map (List.map RuleResult.mirror) := by
  cases h with
  | application d =>
    cases d with
    | forward => exact application_mirror left right
    | backward => exact apply_mirror_of_mirrored application_mirror rfl left right
  | composition d =>
    cases d with
    | forward => exact composition_mirror left right
    | backward => exact apply_mirror_of_mirrored composition_mirror rfl left right
  | skipping d =>
    cases d with
    | forward => exact skipping_mirror left right
    | backward => exact apply_mirror_of_mirrored skipping_mirror rfl left right

end BinaryRule

namespace Grammar

/-- Whether the rules of a grammar come in two directions, with some services, and both rules of
each kind are there or none. -/
structure Symmetric (S : Services) (g : Grammar) : Prop where
  sided : ∀ rule ∈ g.binary, rule.Sided S
  mirror : ∀ rule ∈ g.binary, rule.mirror ∈ g.binary
  unary : g.unary = []

variable {S : Services} {g : Grammar} {left right : Category} {results results' : List RuleResult}
  {res res' : RuleResult}

/-- The rules of both directions, in any order. -/
theorem symmetric_of_sided (h : ∀ rule, rule ∈ g.binary ↔ rule.Sided S) (hunary : g.unary = []) :
    g.Symmetric S where
  sided rule hrule := (h rule).1 hrule
  mirror rule hrule := by
    rw [h] at hrule ⊢
    cases hrule with
    | application d => exact .application d.flip
    | composition d => exact .composition d.flip
    | skipping d => exact .skipping d.flip
  unary := hunary

/-- The grammar of application and composition, with the rules that absorb skipped tokens. -/
theorem symmetric_categorial (S : Services) : ((categorial S none).withSkipping).Symmetric S := by
  have hrules : ((categorial S none).withSkipping).binary = [.application .forward S,
      .application .backward S, .composition .forward S, .composition .backward S,
      .skipping .forward, .skipping .backward] := rfl
  refine symmetric_of_sided (fun rule => ?_) rfl
  rw [hrules]
  constructor
  · intro hrule
    simp only [List.mem_cons, List.not_mem_nil, or_false] at hrule
    rcases hrule with rfl | rfl | rfl | rfl | rfl | rfl
    · exact .application .forward
    · exact .application .backward
    · exact .composition .forward
    · exact .composition .backward
    · exact .skipping .forward
    · exact .skipping .backward
  · rintro (d | d | d) <;> cases d <;> simp

theorem Symmetric.regular (h : g.Symmetric S) {rule : BinaryRule} (hrule : rule ∈ g.binary)
    (hleft : left.hashable = true) (hright : right.hashable = true) :
    Regular (rule.apply left right) :=
  BinaryRule.regular_of_schematic (h.sided rule hrule).schematic hleft hright

/-- Rules of both directions always give their results on categories that can be keys. -/
theorem Symmetric.applyBinary_ok (h : g.Symmetric S) (hleft : left.hashable = true)
    (hright : right.hashable = true) : ∃ results, (g.applyBinary left right).result = .ok results :=
  applyBinary_ok_iff.2 fun _ hrule => h.regular hrule hleft hright

/-- What a grammar gives for two categories it gives, mirrored, for the mirrored ones in the other
order. -/
theorem Symmetric.mirror_mem (h : g.Symmetric S)
    (hresults : (g.applyBinary left right).result = .ok results)
    (hresults' : (g.applyBinary right.mirror left.mirror).result = .ok results')
    (hres : res ∈ results) : res.mirror ∈ results' := by
  obtain ⟨⟨rule, hrule, given, hgiven, hmem⟩, hkey⟩ := (mem_applyBinary hresults).1 hres
  have happly := (h.sided rule hrule).apply_mirror left right
  rw [hgiven] at happly
  exact (mem_applyBinary hresults').2
    ⟨⟨rule.mirror, h.mirror rule hrule, _, happly, List.mem_map_of_mem hmem⟩, hkey⟩

/-- A result is the only one of some rule of the grammar. -/
theorem Symmetric.exists_rule (h : g.Symmetric S)
    (hresults : (g.applyBinary left right).result = .ok results) (hres : res ∈ results) :
    ∃ rule ∈ g.binary, res.rule = rule.name ∧ (rule.apply left right).result = .ok [res] := by
  obtain ⟨⟨rule, hrule, given, hgiven, hres⟩, -⟩ := (mem_applyBinary hresults).1 hres
  rcases BinaryRule.follows_of_apply (h.sided rule hrule).schematic hgiven with
    rfl | ⟨s, v, -, rfl⟩
  · cases hres
  · obtain rfl := List.mem_singleton.1 hres
    exact ⟨rule, hrule, rfl, hgiven⟩

/-- Of each rule there is one result. -/
theorem Symmetric.eq_of_rule (h : g.Symmetric S)
    (hresults : (g.applyBinary left right).result = .ok results) (hres : res ∈ results)
    (hres' : res' ∈ results) (hrule : res.rule = res'.rule) : res = res' := by
  obtain ⟨rule, hmem, hname, happly⟩ := h.exists_rule hresults hres
  obtain ⟨rule', hmem', hname', happly'⟩ := h.exists_rule hresults hres'
  obtain rfl := (h.sided rule hmem).eq_of_name (h.sided rule' hmem')
    (by rw [← hname, ← hname', hrule])
  exact List.singleton_inj.1 (Except.ok.inj (happly.symm.trans happly'))

/-- There are no results on one category. -/
theorem Symmetric.applyUnary_eq (h : g.Symmetric S) (c : Category) :
    (g.applyUnary c).result = .ok [] := by
  rw [applyUnary, h.unary]
  rfl

end Grammar

end Categorial
