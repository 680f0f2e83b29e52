import Categorial.Lexicon.View

/-!
Lexicons under names. A union on the shelf refers to the lexicons it was made of, so that what is
added to them later is seen through it; a name that is given again leaves the unions as they are.
-/

namespace Categorial

/-- What stands on a shelf: a lexicon, or a union of things that were there before. -/
inductive Shelved where
  | lexicon (l : Lexicon)
  | union (parts : List Nat)

/-- A shelf: all things ever put there, and the names in use. -/
structure Shelf where
  things : List Shelved
  names : List (String × Nat)

namespace Shelf

/-- The shelf with one empty lexicon. -/
def start (name : String) : Shelf := ⟨[.lexicon .empty], [(name, 0)]⟩

/-- The position of the thing with a name. -/
def find (shelf : Shelf) (name : String) : Except Fault Nat :=
  match shelf.names.lookup name with
  | some i => .ok i
  | none => .error (.noKey (Text.quoted name))

/-- What can be read at a position, at most `fuel` unions deep. -/
def viewWith (shelf : Shelf) : Nat → Nat → LexiconView
  | 0, _ => .union []
  | fuel + 1, i =>
    match shelf.things[i]? with
    | some (.lexicon l) => .single l
    | some (.union parts) => .union (parts.map (shelf.viewWith fuel))
    | none => .union []

/-- What can be read under a name. -/
def view (shelf : Shelf) (name : String) : Except Fault LexiconView :=
  (shelf.find name).map (shelf.viewWith (shelf.things.length + 1))

/-- The lexicon under a name. A union cannot be changed. -/
def lexicon (shelf : Shelf) (name : String) : Except Fault Lexicon := do
  match shelf.things[← shelf.find name]? with
  | some (.lexicon l) => return l
  | _ => .error (.raised .member "a union has no entries of its own")

/-- Puts a thing on the shelf under a name. -/
def put (shelf : Shelf) (name : String) (thing : Shelved) : Shelf :=
  ⟨shelf.things ++ [thing], (name, shelf.things.length) :: shelf.names.filter (·.1 != name)⟩

/-- Puts a union of named things on the shelf. -/
def putUnion (shelf : Shelf) (name : String) (parts : List String) : Except Fault Shelf :=
  (parts.mapM shelf.find).map fun parts => shelf.put name (.union parts)

/-- Changes the lexicon under a name. -/
def update (shelf : Shelf) (name : String) (l : Lexicon) : Except Fault Shelf :=
  (shelf.find name).map fun i => { shelf with things := shelf.things.set i (.lexicon l) }

end Shelf

end Categorial
