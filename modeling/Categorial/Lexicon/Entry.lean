import Categorial.Category
import Categorial.Text.Blank

/-!
Lexical entries: a sequence of tokens with a category. Two entries are the same when their tokens
and their categories are; the origin of an entry and the entries linked to it only tell where it
comes from. Main statement: an entry can be made just if its category can be a key.
-/

namespace Categorial

/-- Where an entry comes from. -/
inductive Origin where
  | fixed | learned | generated | skipping
  deriving DecidableEq, Repr

namespace Origin

def name : Origin → String
  | fixed => "fixed"
  | learned => "learned"
  | generated => "generated"
  | skipping => "skipping"

/-- The origin that a text names, in capitals or not. -/
def ofText (s : String) : Except Fault Origin :=
  let name := Text.caseless s
  match [fixed, learned, generated, skipping].find? fun o => o.name == name with
  | some origin => .ok origin
  | none => .error (.notOrigin (Text.quoted name))

end Origin

structure Entry where
  tokens : List String
  category : Category
  origin : Origin
  /-- Entries made together with this one; who learns this one also learns them. -/
  linked : List Entry

namespace Entry

/-- The entry with the given parts, whose category must be able to be a key. -/
def create (tokens : List String) (category : Category) (origin : Origin) (linked : List Entry) :
    Except Fault Entry :=
  match category.keyFault? with
  | some fault => .error fault
  | none => .ok ⟨tokens, category, origin, linked⟩

def same (a b : Entry) : Bool :=
  a.tokens == b.tokens && a.category.same b.category

/-- The entry with another origin; its links are carried over. -/
def withOrigin (e : Entry) (origin : Origin) : Entry := { e with origin := origin }

def text (e : Entry) : String :=
  "[" ++ " ".intercalate e.tokens ++ " :- " ++ e.category.text ++ " \x7b" ++ e.origin.name
    ++ "\x7d]"

/-- The text of an entry inside another value. -/
def shown (e : Entry) : String := "LexicalEntry" ++ e.text

/-- An entry can be made just if its category can be a key, and it has the given parts. -/
theorem create_ok_iff {tokens : List String} {c : Category} {origin : Origin} {linked : List Entry}
    {e : Entry} : create tokens c origin linked = .ok e ↔
      c.hashable = true ∧ e = ⟨tokens, c, origin, linked⟩ := by
  rw [create, ← Category.keyFault?_eq_none]
  cases c.keyFault? with
  | none => simp [eq_comm]
  | some fault => simp

/-- No entry can be made just of the categories that refuse to be a key, with their fault. -/
theorem create_error_iff {tokens : List String} {c : Category} {origin : Origin}
    {linked : List Entry} {fault : Fault} :
    create tokens c origin linked = .error fault ↔ c.keyFault? = some fault := by
  rw [create]
  cases c.keyFault? <;> simp

theorem same_refl (e : Entry) : e.same e = true := by
  simp [same, Category.same_refl]

end Entry

end Categorial
