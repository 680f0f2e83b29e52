import Categorial.Meaning.Printing
import Categorial.Decimal.Reading
import Categorial.Scalar

/-!
Reading a value as a number, and applying a value to an argument. An interpretation says what each
symbol does; `stock` interprets the actions. A composed function applies its inner part first, and a
fault of either part is a fault of the whole.
-/

namespace Categorial

namespace Value

/-- The number that a value is, if it is one; truth values are. -/
def number? : Value → Option Number
  | bool b => some (.truth b)
  | int n => some (.int n)
  | real x => some (.real x)
  | undefined _ => some (.real (0.0 / 0.0))
  | _ => Option.none

def ofNumber : Number → Value
  | .int n => int n
  | .truth b => bool b
  | .real x => if x.isNaN then undefined 0 else real x

/-- An integer with a value added to it. -/
def addTo (n : Int) (v : Value) : Except Fault Value :=
  match v.number? with
  | some x => (Scalar.plus (.int n) x).map ofNumber
  | Option.none =>
    .error (.raised .type ("unsupported operand type(s) for +: 'int' and '" ++ v.className ++ "'"))

/-- The item of a list at a position, if the position is one of the list. -/
def itemOf (items : List Value) (position : Number) : Except Fault (Option Value) :=
  if position.isNegative || Number.le (.int items.length) position then .ok Option.none
  else match position.whole with
    | .ok i => .ok items[i.toNat]?
    | .error _ =>
      .error (.raised .type "tuple indices must be integers or slices, not float")

end Value

/-- What a function does: its symbol, its parameters, the arguments it has collected, and the
argument at hand give a result or a fault. -/
def Interpretation := Symbol → List Value → List Value → Value → Except Fault Value

/-- What the actions stand for. -/
def Interpretation.stock : Interpretation := fun symbol parameters arguments x =>
  match symbol.action with
  | .tag accepted =>
    if accepted.all (·.contains x.typeName) then .ok (.tuple [.text symbol.name, x])
    else .error (.refused symbol.name x.typeName)
  | .curry =>
    let collected := arguments ++ [x]
    let count := (parameters.headD .none).number?
    if count.any (Number.lt (.int collected.length)) then .ok (.func symbol parameters collected)
    else .ok (.tuple (.text symbol.name :: collected))
  | .identity => .ok x
  | .const => .ok (parameters.headD .none)
  | .reject => .ok .none
  | .listify => .ok (.list [x])
  | .add =>
    match x with
    | .int n => Value.addTo n (parameters.headD .none)
    | _ => .error (.refused symbol.name x.typeName)
  | .get =>
    match x with
    | .tuple items => do
      let position := ((parameters.headD .none).number?).getD (.int 0)
      match ← Value.itemOf items position with
      | some item => .ok item
      | none => .error (.noItem symbol.name)
    | _ => .error (.refused symbol.name x.typeName)
  | .lookup =>
    let hit := parameters.findSome? fun row => match row with
      | .tuple [key, result] => if key.equal x then some result else none
      | _ => none
    match hit with
    | some result => .ok result
    | none => .error (.noKey (Text.quoted symbol.name))
  | .raise kind => .error (.raised kind (symbol.name ++ " failed"))

namespace Value

/-- Applies a value to an argument. -/
def call (I : Interpretation) : Value → Value → Except Fault Value
  | func symbol parameters arguments, x => I symbol parameters arguments x
  | composed outer inner, x =>
    match call I inner x with
    | .ok y => call I outer y
    | .error fault => .error fault
  | v, _ => .error (.notCallable v.className)

/-- The floating-point value that a value stands for: numbers, truth values and the texts of
numbers. -/
def toFloat : Value → Except Fault Float
  | bool b => .ok (if b then 1.0 else 0.0)
  | int n => Number.ofInt? n
  | real x => .ok x
  | undefined _ => .ok (0.0 / 0.0)
  | text s => match Decimal.ofText? s with
    | some x => .ok x
    | Option.none => .error (.notNumeric (Text.quoted s))
  | v => .error (.neverNumeric v.className)

end Value

end Categorial
