import Categorial.Rule.Binary

/-!
Rules that turn a single category into another one over its span, such as a bare noun that becomes a
noun phrase.
-/

namespace Categorial

inductive UnaryRule where
  /-- `source  =>  target`, with a function for the meaning if there is one. -/
  | shift (I : Interpretation) (label : String) (source target : Typing) (function : Value)
  /-- Any other rule, of a class of its own. -/
  | custom (className : String) (name : RuleName) (run : Category → Except Fault (List RuleResult))

namespace UnaryRule

def name : UnaryRule → RuleName
  | shift _ label _ _ _ => ⟨label, .forward⟩
  | custom _ name _ => name

def className : UnaryRule → String
  | shift .. => "SyntaxShiftingRule"
  | custom className _ _ => className

def text (r : UnaryRule) : String := r.className ++ "[" ++ r.name.text ++ "]"

/-- Whether two rules are the same: their classes, names, types and functions are. -/
def same : UnaryRule → UnaryRule → Bool
  | shift _ label source target function, shift _ label' source' target' function' =>
    label == label' && source.same source' && target.same target' && function.same function'
  | custom c n _, custom c' n' _ => c == c' && n == n'
  | _, _ => false

def hashable : UnaryRule → Bool
  | shift _ _ _ _ function => function.hashable
  | custom .. => true

/-- Applies a rule to a category. There is no result if the rule does not fire. -/
def apply (rule : UnaryRule) (category : Category) : Traced (List RuleResult) :=
  match rule with
  | shift I _ source target function =>
    if category.type.same source then
      if function.isNone || category.meaning.isNone then
        pure [⟨rule.name, target, category.meaning⟩]
      else do
        let v ← askService rule.name.text (function.call I category.meaning)
        return if v.isNone then [] else [⟨rule.name, target, v⟩]
    else pure []
  | custom _ _ run => Traced.ofExcept (run category)

end UnaryRule

end Categorial
