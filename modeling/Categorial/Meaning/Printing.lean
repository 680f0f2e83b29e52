import Categorial.Meaning.Equality
import Categorial.Decimal.Shortest
import Categorial.Number

/-!
The two written forms of a value. `shown` is the form inside another value, where text stands
between quotes; `display` is the form on its own, where text is itself and a coordination reads like
a call. Every value has both forms: integers of any size are written with all their digits.
-/

namespace Categorial.Value

/-- The text of a tuple with the given items; a single item keeps its comma. -/
def tupleText : List String → String
  | [item] => "(" ++ item ++ ",)"
  | items => "(" ++ ", ".intercalate items ++ ")"

/-- The text of a set: its elements in the order of their texts. -/
def setText (items : List String) : String :=
  "\x7b" ++ ", ".intercalate (items.mergeSort fun a b => !(b < a)) ++ "\x7d"

/-- The label of a function: its name, and the arguments it has collected. -/
def labelText (symbol : Symbol) (arguments : List String) : String :=
  if arguments.isEmpty then symbol.name
  else symbol.name ++ "(" ++ ", ".intercalate arguments ++ ")"

mutual

/-- The form of a value inside another one, integers with all their digits. -/
def shown : Value → String
  | none => "None"
  | bool b => if b then "True" else "False"
  | int n => toString n
  | real x => Decimal.shortest x
  | undefined _ => "nan"
  | text s => Text.quoted s
  | tuple items => tupleText (shownAll items)
  | list items => "[" ++ ", ".intercalate (shownAll items) ++ "]"
  | set items => setText (shownAll items)
  | coord conj items =>
    "CoordinationValue(conj=" ++ shown conj ++ ", items=" ++ tupleText (shownAll items) ++ ")"
  | composed outer inner =>
    "ComposedFunction(primary=" ++ shown outer ++ ", secondary=" ++ shown inner ++ ")"
  | func symbol _ arguments => "<fn " ++ labelText symbol (shownAll arguments) ++ ">"
  | foreign object => object.shown

/-- The forms of all values of a list. -/
def shownAll : List Value → List String
  | [] => []
  | v :: vs => shown v :: shownAll vs

end

/-- The form of a part of a composed function, given its form on its own: a named function goes by
its label alone. -/
def partText (v : Value) (alone : String) : String :=
  match v with
  | func symbol _ arguments =>
    let label := labelText symbol (shownAll arguments)
    if symbol.naming = .named && label != "<lambda>" then label else shown v
  | _ => alone

mutual

/-- The form of a value on its own. -/
def display : Value → String
  | text s => s
  | coord conj items => display conj ++ "(" ++ ", ".intercalate (displayAll items) ++ ")"
  | composed outer inner =>
    "(" ++ partText outer (display outer) ++ " . " ++ partText inner (display inner) ++ ")"
  | v => shown v

/-- The forms of all values of a list. -/
def displayAll : List Value → List String
  | [] => []
  | v :: vs => display v :: displayAll vs

end

end Categorial.Value
