import Categorial.Document.Json
import Categorial.Lexicon.Entry
import Categorial.Model.Vector
import Categorial.Rule.Name

/-!
Documents that show meanings, types, categories, entries, results, vectors and faults. A function is
shown by its label; the elements of a set are shown in the order of their texts.
-/

namespace Categorial

namespace Value

/-- The documents in the order of their texts. -/
def inOrder (items : List (String × Json)) : List Json :=
  (items.mergeSort fun a b => !(b.1 < a.1)).map (·.2)

mutual

def toJson : Value → Json
  | none => .null
  | bool b => .bool b
  | int n => .int n
  | real x => if x.isFinite then .real x else .object [("float", .text (Decimal.shortest x))]
  | undefined _ => .object [("float", .text "nan")]
  | text s => .text s
  | tuple items => .array (toJsonAll items)
  | list items => .object [("list", .array (toJsonAll items))]
  | set items => .object [("set", .array (inOrder ((shownAll items).zip (toJsonAll items))))]
  | coord conj items => .object [("coord", .array [toJson conj, .array (toJsonAll items)])]
  | composed outer inner => .object [("comp", .array [toJson outer, toJson inner])]
  | func symbol parameters arguments =>
    .object [("fn", .text (shown (func symbol parameters arguments)))]
  | foreign object => .object [("object", .text object.shown)]

def toJsonAll : List Value → List Json
  | [] => []
  | v :: vs => toJson v :: toJsonAll vs

end

end Value

/-- Yes and no as the digits one and zero. -/
def Json.digits (bs : List Bool) : Json :=
  .text (String.ofList (bs.map fun b => if b then '1' else '0'))

/-- The table of a relation on a list, a row of digits for each element. -/
def Json.relation {α : Type} (relation : α → α → Bool) (xs : List α) : Json :=
  .array (xs.map fun a => Json.digits (xs.map fun b => relation a b))

def SyntaxType.toJson (t : SyntaxType) : Json :=
  let shared := [("str", Json.text t.name), ("paren", .text t.argumentName),
    ("arity", .nat t.arity),
    ("flags", .digits [t.isConj, t.isCoordination, t.isFunction, t.isValue])]
  match t with
  | primitive _ => .object (("kind", .text "prim") :: shared)
  | conj _ => .object (("kind", .text "conj") :: shared)
  | slash direction main sub => .object (("kind", .text "comp") :: shared ++
      [("dir", .text direction.name), ("main", main.toJson), ("sub", sub.toJson),
        ("flat", .texts (t.flatten.map (·.name)))])
  | coordination u => .object (("kind", .text "coord") :: shared ++ [("of", u.toJson)])

def Typing.toJson (t : Typing) : Json :=
  match t with
  | some t => t.toJson
  | none => .object [("kind", .text "base"), ("str", .text (Typing.text none)), ("paren", .null),
      ("arity", .int 0), ("flags", .digits [false, false, false, false])]

/-- The document that names a type. -/
def Typing.nameJson (t : Typing) : Json :=
  match t with
  | some t => .text t.name
  | none => .null

def Category.toJson (c : Category) : Json :=
  .object [("syn", Typing.nameJson c.type), ("sem", c.meaning.toJson)]

def Entry.toJson (e : Entry) : Json :=
  .object [("tokens", .texts e.tokens), ("cat", e.category.toJson), ("origin", .text e.origin.name),
    ("linked", .texts (e.linked.map (·.text)))]

def RuleResult.toJson (r : RuleResult) : Json :=
  .object [("rule", .text r.rule.text), ("cat", r.category.toJson), ("str", .text r.text)]

/-- The document that shows a score, which is always in floating point. -/
def Number.scoreJson (x : Number) : Except Fault Json := x.toFloat.map Json.number

def Number.weightJson (x : Number) : Json := .number x.approx

/-- The document that shows a vector, key by key. -/
def SparseVector.toJson (v : SparseVector Number) : Json :=
  .array (v.pairs.map fun pair => .array [.texts pair.1, pair.2.weightJson])

/-- The kinds of fault that are shown with their text. -/
def FaultKind.showsText (k : FaultKind) : Bool :=
  [FaultKind.grammar, .configuration, .scorerConfiguration, .execution, .typeText, .value,
    .missingKey].contains k

def Fault.toFields (f : Fault) : List (String × Json) :=
  ("error", .text f.kind.label) :: (if f.kind.showsText then [("message", .text f.text)] else [])

def Fault.toJson (f : Fault) : Json := .object f.toFields

def Json.ofOutcome : Except Fault Json → Json
  | .ok j => j
  | .error f => f.toJson

end Categorial
