import Categorial.SyntaxType.Basic
import Categorial.Text.Layout

/-!
Systems of types: the primitive types and conjunctions that a grammar allows, in the order of their
definition. A type defined again replaces the type of its name and keeps its place.
-/

namespace Categorial

/-- The types that a grammar allows, one for each name. -/
structure SyntaxSystem where
  types : List Typing
  deriving DecidableEq, Repr

namespace SyntaxSystem

def empty : SyntaxSystem := ⟨[]⟩

/-- Puts a type in the place of the one with its name, or at the end. -/
def replaceOrAppend (t : Typing) : List Typing → List Typing
  | [] => [t]
  | u :: us => if Typing.same t u then t :: us else u :: replaceOrAppend t us

def define (system : SyntaxSystem) (t : Typing) : SyntaxSystem :=
  ⟨replaceOrAppend t system.types⟩

/-- The type defined under a name. -/
def find? (system : SyntaxSystem) (name : String) : Option SyntaxType :=
  (system.types.find? (Typing.same (some (.primitive name)))).join

def text (system : SyntaxSystem) : String :=
  "CCGSyntaxSystem(" ++ ", ".intercalate (system.types.map Typing.text) ++ ")"

/-- The report on a system, a line for each type. -/
def summary (system : SyntaxSystem) : String :=
  "CCGSyntaxSystem:\n" ++ Text.indent (Text.block
    ("Primitive and Conjunction types:" :: system.types.map fun t => "  " ++ t.text))

/-- The primitive types of a sentence, its noun phrases and its prepositional phrases, and one
conjunction. -/
def default : SyntaxSystem :=
  ⟨["S", "NP", "N", "PP"].map (fun n => some (.primitive n)) ++ [some (.conj "CONJ")]⟩

end SyntaxSystem

end Categorial
