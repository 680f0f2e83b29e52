import Categorial.Rule.Coordination
import Categorial.Rule.Name

/-!
Rules that combine two adjacent categories. The types decide whether a rule fires; the meanings can
only stop it. Two categories without meanings give one without a meaning, and a category with a
meaning never combines with one without, except under a coordination.
-/

namespace Categorial

/-- A rule for two adjacent categories. -/
inductive BinaryRule where
  /-- `X/Y  Y  =>  X`, and `Y  X\Y  =>  X` backward. -/
  | application (direction : Direction) (services : Services)
  /-- `X/Y  Y/Z  =>  X/Z`, and `Y\Z  X\Y  =>  X\Z` backward. -/
  | composition (direction : Direction) (services : Services)
  /-- `EMPTY  X  =>  X`, and `X  EMPTY  =>  X` backward. -/
  | skipping (direction : Direction)
  /-- `CONJ  T  =>  C[T]`. A rule for coordinations without services fails when it needs them. -/
  | initiation (services : Option CoordinationServices)
  /-- `T  C[T]  =>  T`. -/
  | completion (services : Option CoordinationServices)
  /-- `A/T  C[T]  =>  A`. -/
  | distribution (services : Option CoordinationServices)
  /-- Any other rule, of a class of its own. -/
  | custom (className : String) (name : RuleName)
    (run : Category → Category → Except Fault (List RuleResult))

namespace BinaryRule

def name : BinaryRule → RuleName
  | application direction _ => ⟨"apply", direction⟩
  | composition direction _ => ⟨"comp", direction⟩
  | skipping direction => ⟨"skip", direction⟩
  | initiation _ => ⟨"c1", .forward⟩
  | completion _ => ⟨"c2", .backward⟩
  | distribution _ => ⟨"cx", .forward⟩
  | custom _ name _ => name

def className : BinaryRule → String
  | application .forward _ => "ForwardApplicationRule"
  | application .backward _ => "BackwardApplicationRule"
  | composition .forward _ => "ForwardCompositionRule"
  | composition .backward _ => "BackwardCompositionRule"
  | skipping _ => "SkippingRule"
  | initiation _ => "C1Rule"
  | completion _ => "C2Rule"
  | distribution _ => "CXRule"
  | custom className _ _ => className

def text (r : BinaryRule) : String := r.className ++ "[" ++ r.name.text ++ "]"

/-- Whether two rules are the same: their classes, names and services are. -/
def same : BinaryRule → BinaryRule → Bool
  | application d s, application d' s' => d == d' && s.identity == s'.identity
  | composition d s, composition d' s' => d == d' && s.identity == s'.identity
  | skipping d, skipping d' => d == d'
  | initiation s, initiation s' => s.map (·.identity) == s'.map (·.identity)
  | completion s, completion s' => s.map (·.identity) == s'.map (·.identity)
  | distribution s, distribution s' => s.map (·.identity) == s'.map (·.identity)
  | custom c n _, custom c' n' _ => c == c' && n == n'
  | _, _ => false

/-- Whether a rule absorbs skipped tokens. -/
def isSkipping : BinaryRule → Bool
  | skipping _ => true
  | _ => false

/-- The single result of a rule, unless the meaning was refused. -/
def single (rule : RuleName) (type : SyntaxType) (meaning : Option Value) : List RuleResult :=
  match meaning with
  | some v => [⟨rule, some type, v⟩]
  | none => []

/-- The meaning of two categories together: none for two without meanings, refused if one alone has
a meaning, and the answer of a service otherwise. -/
def combine (rule : RuleName) (left right : Category) (answer : Except Fault Value) :
    Traced (Option Value) :=
  if left.meaning.isNone && right.meaning.isNone then pure (some .none)
  else if left.meaning.isNone || right.meaning.isNone then pure none
  else do
    let v ← askService rule.text answer
    return if v.isNone then none else some v

/-- Asks services for coordinations, if there are any; `operation` is what they are asked for. -/
def askCoordination (rule : RuleName) (services : Option CoordinationServices) (operation : String)
    (answer : CoordinationServices → Except Fault Value) : Traced (Option Value) :=
  match services with
  | none => .fail (.noServices operation)
  | some services => do
    let v ← askService rule.text (answer services)
    return if v.isNone then none else some v

/-- The meaning of a coordination rule: none for two categories without meanings, and the answer of
the services otherwise. -/
def coordinate (rule : RuleName) (left right : Category) (services : Option CoordinationServices)
    (operation : String) (answer : CoordinationServices → Except Fault Value) :
    Traced (Option Value) :=
  if left.meaning.isNone && right.meaning.isNone then pure (some .none)
  else askCoordination rule services operation answer

/-- Combines two adjacent categories. There is no result if the rule does not fire. -/
def apply (rule : BinaryRule) (left right : Category) : Traced (List RuleResult) :=
  match rule with
  | application .forward services =>
    match left.type with
    | some (.slash .forward main sub) =>
      if Typing.same (some sub) right.type then do
        let meaning ← combine rule.name left right (services.apply left.meaning right.meaning)
        return single rule.name main meaning
      else pure []
    | _ => pure []
  | application .backward services =>
    match right.type with
    | some (.slash .backward main sub) =>
      if Typing.same (some sub) left.type then do
        let meaning ← combine rule.name left right (services.apply right.meaning left.meaning)
        return single rule.name main meaning
      else pure []
    | _ => pure []
  | composition .forward services =>
    match left.type, right.type with
    | some (.slash .forward x y), some (.slash .forward y' z) =>
      if y.same y' then do
        let meaning ← combine rule.name left right (services.compose left.meaning right.meaning)
        return single rule.name (.slash .forward x z) meaning
      else pure []
    | _, _ => pure []
  | composition .backward services =>
    match left.type, right.type with
    | some (.slash .backward y z), some (.slash .backward x y') =>
      if y'.same y then do
        let meaning ← combine rule.name left right (services.compose right.meaning left.meaning)
        return single rule.name (.slash .backward x z) meaning
      else pure []
    | _, _ => pure []
  | skipping .forward => pure (if left.isEmpty then [⟨rule.name, right⟩] else [])
  | skipping .backward => pure (if right.isEmpty then [⟨rule.name, left⟩] else [])
  | initiation services =>
    if !left.type.any (·.isConj) then pure []
    else if right.type.any (·.isConj) || right.type.any (·.isCoordination) || right.isEmpty then
      pure []
    else do
      let meaning ← coordinate rule.name left right services "initiate"
        fun s => s.initiate left.meaning right.meaning
      match meaning with
      | none => return []
      | some v =>
        let type ← Traced.ofExcept (Typing.coordination right.type)
        return [⟨rule.name, some type, v⟩]
  | completion services =>
    if Typing.isCoordinationOf right.type left.type then do
      let meaning ← coordinate rule.name left right services "expand"
        fun s => s.expand left.meaning right.meaning
      return match meaning with
        | some v => [⟨rule.name, left.type, v⟩]
        | none => []
    else pure []
  | distribution services =>
    match left.type with
    | some (.slash .forward main sub) =>
      if left.meaning.isNone || right.meaning.isNone then pure []
      else if Typing.isCoordinationOf right.type (some sub) then do
        let meaning ← askCoordination rule.name services "apply_coordination"
          fun s => s.distribute left.meaning right.meaning
        return single rule.name main meaning
      else pure []
    | _ => pure []
  | custom _ _ run => Traced.ofExcept (run left right)

end BinaryRule

end Categorial
