import Categorial.Rule.Unary
import Categorial.Text.Layout

/-!
Grammars: ordered collections of rules without repetitions. Applying a grammar applies every rule in
order. A rule that fails contributes nothing, and neither does a result whose meaning refuses to be
a key with a fault of a type; a result that refuses with any other fault ends the application. Main
statement: applying a grammar fails exactly if a rule gives such a result.
-/

namespace Categorial

structure Grammar where
  binary : List BinaryRule
  unary : List UnaryRule

namespace Grammar

def empty : Grammar := ⟨[], []⟩

/-- Adds a rule for two categories, unless the grammar has it. -/
def addBinary (g : Grammar) (rule : BinaryRule) : Grammar :=
  if g.binary.any rule.same then g else { g with binary := g.binary ++ [rule] }

/-- Adds a rule for one category, unless the grammar has it. -/
def addUnary (g : Grammar) (rule : UnaryRule) : Grammar :=
  if g.unary.any rule.same then g else { g with unary := g.unary ++ [rule] }

def ofRules (binary : List BinaryRule) (unary : List UnaryRule) : Grammar :=
  unary.foldl addUnary (binary.foldl addBinary empty)

/-- Whether a grammar has a rule that absorbs skipped tokens. -/
def hasSkipping (g : Grammar) : Bool := g.binary.any (·.isSkipping)

/-- The grammar with both rules that absorb skipped tokens. -/
def withSkipping (g : Grammar) : Grammar :=
  ofRules (g.binary ++ [.skipping .forward, .skipping .backward]) g.unary

/-- The grammar of application in both directions. -/
def functionApplication (services : Services) : Grammar :=
  ofRules [.application .forward services, .application .backward services] []

/-- The rules for coordinations. -/
def coordinationRules (services : CoordinationServices) : List BinaryRule :=
  [.initiation (some services), .completion (some services), .distribution (some services)]

/-- The grammar of application and composition in both directions, and of coordination if there are
services for it. -/
def categorial (services : Services) (coordination : Option CoordinationServices) : Grammar :=
  ofRules ([.application .forward services, .application .backward services,
    .composition .forward services, .composition .backward services] ++
    (coordination.map coordinationRules).getD []) []

def size (g : Grammar) : Nat := g.binary.length + g.unary.length

/-- The results whose meanings can be keys. -/
def keepKeys : List RuleResult → Except Fault (List RuleResult)
  | [] => .ok []
  | r :: rs => do
    let key ← r.category.meaning.checkKey
    let kept ← keepKeys rs
    return if key then r :: kept else kept

/-- What an application of a rule contributes: nothing if it failed, and otherwise the results whose
meanings can be keys. -/
def isolate (rule : RuleName) (categories : List Category) (outcome : Traced (List RuleResult)) :
    Traced (List RuleResult) :=
  match outcome.result with
  | .error fault =>
    ⟨outcome.notes ++ [.ruleFailure rule.text (categories.map Category.text) fault], .ok []⟩
  | .ok results => ⟨outcome.notes, keepKeys results⟩

/-- The contributions of a list of steps, in order. -/
def collect {α : Type} (step : α → Traced (List RuleResult)) : List α → Traced (List RuleResult)
  | [] => pure []
  | a :: as => do
    let first ← step a
    let rest ← collect step as
    return first ++ rest

/-- The results of all rules for two adjacent categories. -/
def applyBinary (g : Grammar) (left right : Category) : Traced (List RuleResult) :=
  collect (fun rule => isolate rule.name [left, right] (rule.apply left right)) g.binary

def applyUnary (g : Grammar) (category : Category) : Traced (List RuleResult) :=
  collect (fun rule => isolate rule.name [category] (rule.apply category)) g.unary

/-- The report on a grammar, a line for each rule. -/
def summary (g : Grammar) : String :=
  "CCGRuleSet:\n" ++ Text.indent (Text.block
    ("Binary rules:" :: g.binary.map (fun r => "  " ++ r.text) ++
      "Unary rules:" :: g.unary.map fun r => "  " ++ r.text))

theorem keepKeys_of_refusesByType {results : List RuleResult}
    (h : ∀ r ∈ results, r.category.meaning.RefusesByType) :
    keepKeys results = .ok (results.filter fun r => r.category.hashable) := by
  induction results with
  | nil => rfl
  | cons r rs ih =>
    rw [keepKeys, Value.checkKey_of_refusesByType (h r List.mem_cons_self),
      ih fun r' hr' => h r' (List.mem_cons_of_mem _ hr'), List.filter_cons]
    rfl

theorem refusesByType_of_keepKeys {results kept : List RuleResult}
    (h : keepKeys results = .ok kept) : ∀ r ∈ results, r.category.meaning.RefusesByType := by
  induction results generalizing kept with
  | nil => simp
  | cons r rs ih =>
    rw [keepKeys] at h
    cases hkey : r.category.meaning.checkKey with
    | error fault => simp [hkey, bind, Except.bind] at h
    | ok key =>
      cases hrest : keepKeys rs with
      | error fault => simp [hkey, hrest, bind, Except.bind] at h
      | ok rest =>
        intro r' hr'
        rcases List.mem_cons.1 hr' with rfl | hr'
        · exact Value.refusesByType_of_checkKey hkey
        · exact ih hrest r' hr'

/-- The results that are kept are those that can be keys. -/
theorem keepKeys_eq {results kept : List RuleResult} (h : keepKeys results = .ok kept) :
    kept = results.filter fun r => r.category.hashable := by
  rw [keepKeys_of_refusesByType (refusesByType_of_keepKeys h)] at h
  exact (Except.ok.inj h).symm

/-- Whether the results of a rule, if it gives any, refuse to be keys, if at all, with faults of a
type. -/
def Regular (outcome : Traced (List RuleResult)) : Prop :=
  ∀ results, outcome.result = .ok results → ∀ r ∈ results, r.category.meaning.RefusesByType

/-- What a rule contributes is a fault exactly if a result of the rule refuses to be a key with one
that is not of a type. -/
theorem isolate_ok_iff {rule : RuleName} {categories : List Category}
    {outcome : Traced (List RuleResult)} :
    (∃ results, (isolate rule categories outcome).result = .ok results) ↔ Regular outcome := by
  rw [isolate, Regular]
  cases houtcome : outcome.result with
  | error fault => simp
  | ok given =>
    constructor
    · rintro ⟨kept, hkept⟩ results hresults
      rw [← Except.ok.inj hresults]
      exact refusesByType_of_keepKeys hkept
    · intro h
      exact ⟨_, keepKeys_of_refusesByType (h given rfl)⟩

/-- A collection ends without a fault exactly if every step does. -/
theorem collect_ok_iff {α : Type} {step : α → Traced (List RuleResult)} {as : List α} :
    (∃ results, (collect step as).result = .ok results) ↔
      ∀ a ∈ as, ∃ results, (step a).result = .ok results := by
  induction as with
  | nil => exact ⟨by simp, fun _ => ⟨[], rfl⟩⟩
  | cons a as ih =>
    rw [List.forall_mem_cons, ← ih]
    simp only [collect, Traced.result_bind, Traced.result_pure]
    cases (step a).result with
    | error fault => simp [Except.bind]
    | ok first => cases (collect step as).result <;> simp [Except.bind]

/-- Applying a grammar to two categories fails exactly if a rule gives a result that refuses to be a
key with a fault that is not of a type. -/
theorem applyBinary_ok_iff {g : Grammar} {left right : Category} :
    (∃ results, (g.applyBinary left right).result = .ok results) ↔
      ∀ rule ∈ g.binary, Regular (rule.apply left right) := by
  rw [applyBinary, collect_ok_iff]
  exact forall₂_congr fun _ _ => isolate_ok_iff

/-- Applying a grammar to one category fails exactly if a rule gives a result that refuses to be a
key with a fault that is not of a type. -/
theorem applyUnary_ok_iff {g : Grammar} {category : Category} :
    (∃ results, (g.applyUnary category).result = .ok results) ↔
      ∀ rule ∈ g.unary, Regular (rule.apply category) := by
  rw [applyUnary, collect_ok_iff]
  exact forall₂_congr fun _ _ => isolate_ok_iff

end Grammar

end Categorial
