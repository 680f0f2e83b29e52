import Categorial.SyntaxType.Basic

/-!
Categories: a syntax type with a meaning. Two categories are the same when their types and their
meanings are. Main statement: every category is the same as itself.
-/

namespace Categorial

structure Category where
  type : Typing
  meaning : Value

namespace Category

/-- The category of skipped tokens. -/
def empty : Category := ⟨some .empty, .none⟩

def same (a b : Category) : Bool :=
  a.type.same b.type && a.meaning.same b.meaning

/-- The fault that a category refuses to be a key with, if it does: that of its meaning. -/
def keyFault? (c : Category) : Option Fault := c.meaning.keyFault?

def hashable (c : Category) : Bool := c.meaning.hashable

/-- Whether a category is that of a skipped token. -/
def isEmpty (c : Category) : Bool := c.type.isEmpty

/-- The text of a category: its type, and its meaning if it has one. -/
def text (c : Category) : String :=
  if c.meaning.isNone then c.type.text else c.type.text ++ " : " ++ c.meaning.display

/-- The text of a category inside another value. -/
def shown (c : Category) : String := "Category[" ++ c.text ++ "]"

theorem keyFault?_eq_none {c : Category} : c.keyFault? = none ↔ c.hashable = true :=
  Value.keyFault?_eq_none

theorem same_refl (c : Category) : c.same c = true := by
  simp [same, Typing.same_refl, Value.same_refl]

end Category

end Categorial
