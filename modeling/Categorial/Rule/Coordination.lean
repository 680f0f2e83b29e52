import Categorial.Rule.Services

/-!
Services for coordinations such as `red and blue`. A partial coordination starts with a conjunction
and the item on its right; it is completed by an item on its left, or a function is distributed over
its items. Each known conjunction reduces the coordinated values to one.
-/

namespace Categorial

/-- A way to reduce coordinated values to one. -/
def Reduction := List Value → Except Fault Value

namespace Reduction

/-- The values behind a name. -/
def tagged (name : String) : Reduction := fun values => .ok (.tuple (.text name :: values))

def tuple : Reduction := fun values => .ok (.tuple values)

def set : Reduction := Value.setOf

def list : Reduction := fun values => .ok (.list values)

/-- The first value. -/
def first : Reduction := fun values =>
  match values with
  | v :: _ => .ok v
  | [] => .error .noPosition

def count : Reduction := fun values => .ok (.int values.length)

/-- No value. -/
def refuse : Reduction := fun _ => .ok .none

def fail : Reduction := fun _ => .error (.raised .zeroDivision "conj failed")

end Reduction

/-- Services that build and use partial coordinations. -/
structure CoordinationServices where
  identity : Nat
  /-- Starts a partial coordination from a conjunction and its item on the right. -/
  initiate : Value → Value → Except Fault Value
  /-- Completes a partial coordination with an item on its left. -/
  expand : Value → Value → Except Fault Value
  /-- Distributes a function over the items of a partial coordination. -/
  distribute : Value → Value → Except Fault Value

namespace CoordinationServices

/-- What a table of conjunctions says of a conjunction. A conjunction that cannot be a key is not
known. -/
def reduction? (conjunctions : List (Value × Reduction)) (conj : Value) :
    Except Fault (Option Reduction) := do
  if ← conj.checkKey then
    return (conjunctions.find? fun row => row.1.same conj).map (·.2)
  else return none

def reduce (conjunctions : List (Value × Reduction)) (conj : Value) (values : List Value) :
    Except Fault Value := do
  match ← reduction? conjunctions conj with
  | some reduction => reduction values
  | none => return .none

/-- The results of a function on all items; none if the function refuses one of them. -/
def applyAll (services : Services) (function : Value) : List Value →
    Except Fault (Option (List Value))
  | [] => .ok (some [])
  | item :: items =>
    match services.apply function item with
    | .error fault => .error fault
    | .ok result =>
      if result.isNone then .ok none
      else match applyAll services function items with
        | .error fault => .error fault
        | .ok rest => .ok (rest.map (result :: ·))

/-- Coordination with a table of conjunctions. -/
def simple (identity : Nat) (conjunctions : List (Value × Reduction)) (services : Services) :
    CoordinationServices where
  identity := identity
  initiate conj item :=
    if item.isNone then .ok .none
    else do
      match ← reduction? conjunctions conj with
      | some _ => return .coord conj [item]
      | none => return .none
  expand item coordination :=
    match coordination with
    | .coord conj items =>
      if item.isNone then .ok .none else reduce conjunctions conj (item :: items)
    | _ => .ok .none
  distribute function coordination :=
    match coordination with
    | .coord conj items =>
      if function.isNone then .ok .none
      else match applyAll services function items with
        | .error fault => .error fault
        | .ok none => .ok .none
        | .ok (some results) => reduce conjunctions conj results
    | _ => .ok .none

/-- Coordination that leaves every operation open. -/
def abstract (identity : Nat) : CoordinationServices where
  identity := identity
  initiate _ _ := .error .unimplemented
  expand _ _ := .error .unimplemented
  distribute _ _ := .error .unimplemented

end CoordinationServices

end Categorial
