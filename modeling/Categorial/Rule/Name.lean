import Categorial.Category

/-!
Names and results of rules. A name is a label with a direction: `>apply` applies to the right and
`<apply` to the left.
-/

namespace Categorial

structure RuleName where
  label : String
  direction : Direction
  deriving DecidableEq, Repr

namespace RuleName

/-- The name that stands for a look-up in the lexicon. -/
def lexical : RuleName := ⟨"lex", .forward⟩

def text (r : RuleName) : String :=
  (match r.direction with
    | .forward => ">"
    | .backward => "<") ++ r.label

end RuleName

structure RuleResult where
  rule : RuleName
  category : Category

def RuleResult.text (r : RuleResult) : String :=
  r.rule.text ++ ": " ++ r.category.text

end Categorial
