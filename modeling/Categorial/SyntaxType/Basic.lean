import Categorial.Meaning.Printing
import Categorial.Text.Uppercase

/-!
Syntax types: primitive types, conjunctions, slash types and partial coordinations. A slash type
`X/Y` looks for its argument `Y` on the right and gives `X`; `X\Y` looks on the left. Types are
compared by their canonical names. Besides them there is the nameless type, written `none`, which is
part of no other type. Main statement: being the same is an equivalence.
-/

namespace Categorial

/-- Where a slash type, or a rule, finds its argument. -/
inductive Direction where
  | forward | backward
  deriving DecidableEq, Repr

namespace Direction

def name : Direction → String
  | forward => "forward"
  | backward => "backward"

/-- The direction that a text names, in capitals or not. -/
def ofText (s : String) : Except Fault Direction :=
  let name := Text.caseless s
  if name = forward.name then .ok forward
  else if name = backward.name then .ok backward
  else .error (.notDirection (Text.quoted name))

def slash : Direction → Char
  | forward => '/'
  | backward => '\\'

end Direction

/-- A syntax type with a name. -/
inductive SyntaxType where
  | primitive (name : String)
  | conj (name : String)
  | slash (direction : Direction) (main sub : SyntaxType)
  | coordination (coordinated : SyntaxType)
  deriving DecidableEq, Repr

namespace SyntaxType

/-- Whether a type looks for an argument. -/
def isFunction : SyntaxType → Bool
  | slash .. => true
  | _ => false

def isConj : SyntaxType → Bool
  | conj _ => true
  | _ => false

/-- Whether a type is that of a partial coordination. -/
def isCoordination : SyntaxType → Bool
  | coordination _ => true
  | _ => false

/-- Whether a type is primitive. -/
def isValue : SyntaxType → Bool
  | primitive _ => true
  | _ => false

/-- The canonical name of a type. Slashes associate to the left, so only an argument that is itself
a slash type stands in parentheses. -/
def name : SyntaxType → String
  | primitive n => n
  | conj n => n
  | slash direction main sub =>
    main.name ++ String.singleton direction.slash ++
      (if sub.isFunction then "(" ++ sub.name ++ ")" else sub.name)
  | coordination t => "C[" ++ t.name ++ "]"

/-- The name of a type as the argument of a slash. -/
def argumentName (t : SyntaxType) : String :=
  if t.isFunction then "(" ++ t.name ++ ")" else t.name

/-- The number of arguments that a type takes before a type without a slash is left. -/
def arity : SyntaxType → Nat
  | slash _ main _ => main.arity + 1
  | _ => 0

/-- The innermost result of a type and its arguments, in the order of their slashes. -/
def flatten : SyntaxType → List SyntaxType
  | slash _ main sub =>
    if main.isFunction then main.flatten ++ [sub] else [main, sub]
  | t => [t]

/-- The type of skipped tokens. -/
def empty : SyntaxType := primitive "EMPTY"

/-- Whether two types are the same: their canonical names are equal. -/
def same (a b : SyntaxType) : Bool :=
  a.name == b.name

theorem same_iff {a b : SyntaxType} : a.same b = true ↔ a.name = b.name := by
  simp [same]

end SyntaxType

/-- A type, or the nameless one. -/
abbrev Typing := Option SyntaxType

namespace Typing

/-- Whether two types are the same; the nameless one is the same as itself alone. -/
def same (a b : Typing) : Bool :=
  a.map SyntaxType.name == b.map SyntaxType.name

def text (t : Typing) : String :=
  match t with
  | some t => t.name
  | none => "None"

/-- Whether a type is that of skipped tokens. -/
def isEmpty (t : Typing) : Bool :=
  same t (some SyntaxType.empty)

/-- Whether a type is the partial coordination of another one. -/
def isCoordinationOf (t argument : Typing) : Bool :=
  match t with
  | some (.coordination coordinated) => same (some coordinated) argument
  | _ => false

/-- The slash type of two types, neither of which may be nameless. -/
def slash (direction : Direction) (main sub : Typing) : Except Fault SyntaxType :=
  match main, sub with
  | none, _ => .error .namelessMain
  | _, none => .error .namelessPart
  | some main, some sub => .ok (.slash direction main sub)

/-- The partial coordination of a type, which may not be nameless. -/
def coordination (coordinated : Typing) : Except Fault SyntaxType :=
  match coordinated with
  | none => .error .namelessPart
  | some t => .ok (.coordination t)

theorem same_iff {a b : Typing} :
    same a b = true ↔ a.map SyntaxType.name = b.map SyntaxType.name := by
  simp [same]

theorem same_refl (a : Typing) : same a a = true := by
  simp [same]

theorem same_symm {a b : Typing} (h : same a b = true) : same b a = true := by
  rw [same_iff] at h ⊢
  exact h.symm

theorem same_trans {a b c : Typing} (hab : same a b = true) (hbc : same b c = true) :
    same a c = true := by
  rw [same_iff] at hab hbc ⊢
  exact hab.trans hbc

end Typing

end Categorial
