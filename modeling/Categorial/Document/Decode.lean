import Categorial.Document.Json
import Categorial.Grammar
import Categorial.Lexicon.Entry
import Categorial.SyntaxType.Reader

/-!
Meanings, types, categories, entries and grammars out of documents. Services that are compared by
identity, and undefined numbers, are numbered in the order in which they are met. Texts that stand
for types are read in the system at hand.
-/

namespace Categorial

/-- Decoding: reads the system at hand, counts the numbered things, and may fail. -/
abbrev Decode := ReaderT (Option SyntaxSystem) (StateT Nat (Except Fault))

namespace Decode

/-- A number that was not given out before. -/
def fresh : Decode Nat := modifyGet fun n => (n, n + 1)

/-- A result that needs no document. -/
def lift {α : Type} (x : Except Fault α) : Decode α := fun _ n => x.map fun a => (a, n)

/-- Runs a decoding and keeps its fault as data; the count goes on. -/
def attempt {α : Type} (x : Decode α) : Decode (Except Fault α) := fun system n =>
  match x system n with
  | .ok (a, n) => .ok (.ok a, n)
  | .error fault => .ok (.error fault, n)

/-- The result of a decoding. Numbers are given out from one on. -/
def run {α : Type} (x : Decode α) (system : Option SyntaxSystem) : Except Fault α :=
  (x system 1).map (·.1)

/-- Decodes what a field holds, or takes a default without it. -/
def fieldOr {α : Type} (j : Json) (name : String) (default : α) (decode : Json → Decode α) :
    Decode α :=
  match j.get? name with
  | some j => decode j
  | none => pure default

/-- The kind of fault with a label; the most general one for any other label. -/
def kind (j : Json) : FaultKind := (FaultKind.ofLabel? j.toText).getD .general

/-- How a function is named. -/
def naming (j : Json) : Naming :=
  match j.textOr "style" "named" with
  | "lambda" => .lambda
  | "anon" => .anonymous
  | _ => .named

/-- What a function is for, apart from its parameters. -/
def action (j : Json) : Action :=
  match (j.get "fn").toText with
  | "tag" => .tag (match j.get "accept" with
    | .array names => some (names.map Json.toText)
    | _ => none)
  | "curry" => .curry
  | "const" => .const
  | "reject" => .reject
  | "listify" => .listify
  | "add" => .add
  | "get" => .get
  | "lookup" => .lookup
  | "raise" => .raise (kind (j.get "error"))
  | _ => .identity

/-- A meaning, at most `fuel` levels deep. All undefined numbers that are written as numbers are one
occurrence, the number zero; each that is read from a text is one of its own. -/
def valueWith : Nat → Json → Decode Value
  | 0, _ => pure .none
  | fuel + 1, j => do
    match j with
    | .null => pure .none
    | .bool b => pure (.bool b)
    | .int n => pure (.int n)
    | .real x => return if x.isNaN then .undefined 0 else .real x
    | .text s => pure (.text s)
    | .array items => return .tuple (← items.mapM (valueWith fuel))
    | .object _ =>
      if j.has "list" then return .list (← (j.get "list").items.mapM (valueWith fuel))
      else if j.has "set" then lift (Value.setOf (← (j.get "set").items.mapM (valueWith fuel)))
      else if j.has "float" then
        match ← valueWith fuel (j.get "float") with
        | .undefined i => return .undefined i
        | v =>
          let x ← lift v.toFloat
          if x.isNaN then return .undefined (← fresh) else return .real x
      else if j.has "coord" then
        match (j.get "coord").items with
        | [conj, items] =>
          return .coord (← valueWith fuel conj) (← items.items.mapM (valueWith fuel))
        | _ => pure .none
      else if j.has "comp" then
        match (j.get "comp").items with
        | [outer, inner] => return .composed (← valueWith fuel outer) (← valueWith fuel inner)
        | _ => pure .none
      else
        let number (name : String) := fieldOr j name (.int 0) (valueWith fuel)
        let parameters ← match action j with
          | .const => do pure [← valueWith fuel (j.get "value")]
          | .lookup => (j.get "table").items.mapM (valueWith fuel)
          | .curry => do pure [← number "n"]
          | .add => do pure [← number "k"]
          | .get => do pure [← number "i"]
          | _ => pure []
        let name := j.textOr "name" (j.get "fn").toText
        pure (.func ⟨name, naming j, action j⟩ parameters [])

/-- A meaning. -/
def value (j : Json) : Decode Value := valueWith (j.depth + 1) j

/-- The number that a document is, if it is one; truth values are. -/
def number? : Json → Option Number
  | .int n => some (.int n)
  | .bool b => some (.truth b)
  | .real x => some (.real x)
  | _ => none

/-- A number, or the text of one. -/
def number (j : Json) : Decode Number := do
  match number? j with
  | some x => return x
  | none => return .real (← lift (← value j).toFloat)

/-- A number that is not given as a text. -/
def setting (j : Json) : Decode Number :=
  lift ((number? j).elim (.error (.neverNumeric "text")) .ok)

/-- A whole number. -/
def whole (j : Json) : Except Fault Int := (number? j).elim (.error .notWhole) Number.whole

/-- A direction; only a text names one. -/
def direction (j : Json) : Decode Direction := do
  match j with
  | .text s => lift (Direction.ofText s)
  | j => lift (.error (.notDirection j.shown))

/-- The origin of an entry; only a text names one. -/
def origin (j : Json) : Decode Origin := do
  match j with
  | .text s => lift (Origin.ofText s)
  | j => lift (.error (.notOrigin j.shown))

/-- A system of types: the names of its primitive types and of its conjunctions. -/
def system (j : Json) : SyntaxSystem :=
  let primitives := (j.get "primitive").items.map fun n => some (SyntaxType.primitive n.toText)
  let conjunctions := (j.get "conj").items.map fun n => some (SyntaxType.conj n.toText)
  (primitives ++ conjunctions).foldl SyntaxSystem.define .empty

/-- A type, at most `fuel` levels deep. -/
def typeWith : Nat → Json → Decode Typing
  | 0, _ => pure none
  | fuel + 1, j => do
    match j with
    | .text s => return some (← lift (SyntaxType.read s (← read)))
    | .object _ =>
      let slash (direction : Direction) (parts : List Json) : Decode Typing := do
        let main ← typeWith fuel (parts.getD 0 .null)
        let sub ← typeWith fuel (parts.getD 1 .null)
        return some (← lift (Typing.slash direction main sub))
      if j.has "prim" then return some (.primitive (j.get "prim").toText)
      else if j.has "conj" then return some (.conj (j.get "conj").toText)
      else if j.has "coord" then
        return some (← lift (Typing.coordination (← typeWith fuel (j.get "coord"))))
      else if j.has "over" then slash .forward (j.get "over").items
      else if j.has "under" then slash .backward (j.get "under").items
      else
        let main ← typeWith fuel (j.get "main")
        let sub ← typeWith fuel (j.get "sub")
        let direction ← direction (j.get "dir")
        return some (← lift (Typing.slash direction main sub))
    | _ => return none

/-- A type; null stands for the nameless one. -/
def type (j : Json) : Decode Typing := typeWith (j.depth + 1) j

/-- The definition of a type in a system: a name, or the type itself. -/
def definition (ofName : String → SyntaxType) (j : Json) : Decode Typing := do
  match j with
  | .text s => return some (ofName s)
  | .object _ => type j
  | j => lift (.error (.notDefinable (← value j).display))

def category (j : Json) : Decode Category := do
  let type ← type (j.get "syn")
  let meaning ← value (j.get "sem")
  return ⟨type, meaning⟩

/-- Tokens: an array of them, or a text that is cut at its blanks. -/
def tokens (j : Json) : List String :=
  match j with
  | .text s => Text.words s
  | j => j.items.map Json.toText

/-- An entry, with links at most `fuel` levels deep. -/
def entryWith : Nat → Json → Decode Entry
  | 0, _ => pure ⟨[], .empty, .fixed, []⟩
  | fuel + 1, j => do
    let category ← category j
    let linked ← (j.get "linked").items.mapM (entryWith fuel)
    let origin ← fieldOr j "origin" .fixed origin
    lift (Entry.create (tokens (j.get "tokens")) category origin linked)

def entry (j : Json) : Decode Entry := entryWith (j.depth + 1) j

/-- The name of a rule: a label, alone or with a direction. -/
def ruleName (j : Json) : Decode RuleName := do
  match j with
  | .array (label :: dir :: _) => return ⟨label.toText, ← direction dir⟩
  | .array [label] => return ⟨label.toText, .forward⟩
  | j => return ⟨j.toText, .forward⟩

/-- The services that are used if nothing is said. -/
def usualServices : Services := .calling .stock Services.usualRejections

/-- Services, if there are any: abstract ones, or such that call functions. -/
def services? (j : Json) : Decode (Option Services) := do
  match j with
  | .text _ => return some (.abstract (← fresh))
  | .object _ =>
    match j.get? "reject" with
    | some kinds => return some (.calling .stock (kinds.items.map kind))
    | none => return some usualServices
  | _ => return none

/-- How a conjunction reduces values. -/
def reduction (j : Json) : Reduction :=
  match j.toText with
  | "tuple" => .tuple
  | "set" => .set
  | "list" => .list
  | "first" => .first
  | "count" => .count
  | "none" => .refuse
  | "raise" => .fail
  | name => .tagged (String.ofList (name.toList.drop 4))

/-- The table of conjunctions with one more row; a row with the same conjunction gives way. -/
def addConjunction (rows : List (Value × Reduction)) (row : Json) :
    Decode (List (Value × Reduction)) := do
  let conj ← value (row.items.getD 0 .null)
  let reduction := reduction (row.items.getD 1 .null)
  if let some fault := conj.keyFault? then lift (.error fault)
  else if rows.any fun r => r.1.same conj then
    return rows.map fun r => if r.1.same conj then (r.1, reduction) else r
  else return rows ++ [(conj, reduction)]

/-- The services of a field, which stands before those at hand even if it names none; the usual ones
take the place of none. -/
def servicesOr (services : Option Services) (j : Json) : Decode Services := do
  return (← fieldOr j "services" services services?).getD usualServices

/-- Services for coordinations, if there are any. They use services of their own or `services`. -/
def coordination? (services : Option Services) (j : Json) :
    Decode (Option CoordinationServices) := do
  match j with
  | .text _ => return some (.abstract (← fresh))
  | .object _ =>
    let services ← servicesOr services j
    let rows ← (j.get "conj").items.foldlM addConjunction []
    return some (.simple (← fresh) rows services)
  | _ => return none

/-- A rule of either kind. -/
inductive Rule where
  | binary (rule : BinaryRule)
  | unary (rule : UnaryRule)

namespace Rule

def text : Rule → String
  | binary r => r.text
  | unary r => r.text

def same : Rule → Rule → Bool
  | binary r, binary s => r.same s
  | unary r, unary s => r.same s
  | _, _ => false

def hashable : Rule → Bool
  | binary _ => true
  | unary r => r.hashable

end Rule

/-- Rules that stand for those of a caller: one that fails, one that gives three results, and rules
that are left open. -/
def callersRule (kind : String) : Rule :=
  let name : RuleName := ⟨kind, .forward⟩
  match kind with
  | "raise" => .binary (.custom "RaisingRule" name fun _ _ =>
      .error (.raised .runtime "broken rule"))
  | "pair" => .binary (.custom "PairRule" name fun left right =>
      .ok [⟨name, ⟨left.type, .list [left.meaning]⟩⟩, ⟨name, left⟩, ⟨name, right⟩])
  | "raise1" => .unary (.custom "RaisingUnaryRule" name fun _ =>
      .error (.raised .value "broken unary rule"))
  | "base1" => .unary (.custom "CCGUnaryRule" name fun _ => .error .unimplemented)
  | _ => .binary (.custom "CCGBinaryRule" name fun _ _ => .error .unimplemented)

/-- A rule. It uses services of its own, or those at hand. -/
def rule (services : Option Services) (coordination : Option CoordinationServices) (j : Json) :
    Decode Rule := do
  let calling ← servicesOr services j
  let coordination ← fieldOr j "coord" coordination (coordination? (some calling))
  match (j.get "rule").toText with
  | "fapply" => return .binary (.application .forward calling)
  | "bapply" => return .binary (.application .backward calling)
  | "fcomp" => return .binary (.composition .forward calling)
  | "bcomp" => return .binary (.composition .backward calling)
  | "c1" => return .binary (.initiation coordination)
  | "c2" => return .binary (.completion coordination)
  | "cx" => return .binary (.distribution coordination)
  | "skip" =>
    let direction ← fieldOr j "dir" .forward direction
    return .binary (.skipping direction)
  | "shift" =>
    let source ← type (j.get "source")
    let target ← type (j.get "target")
    let function ← value (j.get "f")
    return .unary (.shift .stock (j.get "label").toText source target function)
  | kind => return callersRule kind

/-- A grammar: a standard one or none to start with, further rules, and skipping rules added any
number of times. -/
def grammar (j : Json) : Decode Grammar := do
  let services ← services? (j.get "services")
  let coordination ← coordination? services (j.get "coord")
  let start : Grammar := match (j.get "make").toText with
    | "app" => .functionApplication (services.getD usualServices)
    | "ccg" => .categorial (services.getD usualServices) coordination
    | _ => .empty
  let rules ← ((j.get "binary").items ++ (j.get "unary").items).mapM (rule services coordination)
  let g := rules.foldl (fun g r => match r with
    | .binary r => g.addBinary r
    | .unary r => g.addUnary r) start
  let times ← fieldOr j "skipping" 0 fun n => lift (whole n)
  return (List.range times.toNat).foldl (fun g _ => g.withSkipping) g

end Decode

end Categorial
