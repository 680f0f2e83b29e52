import Categorial.Fault
import Categorial.Decimal.Binary

/-!
Meanings. A meaning is data, a function, a partial coordination, or an object of a class of its own;
the parser only compares meanings and hands them to the services that combine them. Functions are
symbols with parameters and collected arguments; what a symbol does is said by an interpretation, so
that statements about rules can speak of all functions at once. A value is a key unless a part of it
refuses to be one, with a fault of its own: lists refuse with a fault of a type, objects with any.
-/

namespace Categorial

/-- How a function goes by a name: under its own, under the name of all nameless functions, or under
none. -/
inductive Naming where
  | named | lambda | anonymous
  deriving DecidableEq, Repr

/-- What a function is for. -/
inductive Action where
  /-- Pairs its name with the argument; refuses types outside the list if there is one. -/
  | tag (accepted : Option (List String))
  /-- Collects arguments up to a count, which is its parameter. -/
  | curry
  | identity
  /-- Gives its parameter. -/
  | const
  | reject
  /-- Puts the argument into a list. -/
  | listify
  /-- Adds its parameter to an integer. -/
  | add
  /-- Selects the item of a tuple at the position that is its parameter. -/
  | get
  /-- Looks the argument up in the pairs that are its parameters. -/
  | lookup
  | raise (kind : FaultKind)
  deriving DecidableEq, Repr

structure Symbol where
  name : String
  naming : Naming
  action : Action
  deriving DecidableEq, Repr

/-- An object of a class that nothing else is known of: no number, no collection and no function. -/
structure Foreign where
  number : Nat
  className : String
  shown : String
  /-- The fault that the object refuses to be a key with, if it does. -/
  refusal : Option Fault
  deriving DecidableEq, Repr

inductive Value where
  /-- No meaning; as a result, a refusal. -/
  | none
  | bool (b : Bool)
  | int (n : Int)
  | real (x : Float)
  /-- An undefined number. It is equal to no number; as a part of other values each occurrence is
  one with itself alone. -/
  | undefined (occurrence : Nat)
  | text (s : String)
  | tuple (items : List Value)
  /-- A list is never a key. -/
  | list (items : List Value)
  /-- A set, its elements distinct keys and in the order of arrival. -/
  | set (items : List Value)
  /-- A partial coordination: a conjunction and the coordinated items, left to right. -/
  | coord (conj : Value) (items : List Value)
  /-- The function that applies `outer` to the result of `inner`. -/
  | composed (outer inner : Value)
  | func (symbol : Symbol) (parameters arguments : List Value)
  | foreign (object : Foreign)

namespace Value

def isNone : Value → Bool
  | none => true
  | _ => false

def isUndefined : Value → Bool
  | undefined _ => true
  | _ => false

/-- Whether a value can be applied to an argument. -/
def isCallable : Value → Bool
  | composed .. | func .. => true
  | _ => false

/-- The name of a value's type, as functions accept it. -/
def typeName : Value → String
  | none => "NoneType"
  | bool _ => "bool"
  | int _ => "int"
  | real _ | undefined _ => "float"
  | text _ => "str"
  | tuple _ => "tuple"
  | list _ => "list"
  | set _ => "set"
  | coord .. => "coord"
  | composed .. | func .. => "fn"
  | foreign object => object.className

/-- The name of a value's type in reports. -/
def className : Value → String
  | set _ => "FSet"
  | coord .. => "CoordinationValue"
  | composed .. => "ComposedFunction"
  | func .. => "Fn"
  | v => v.typeName

mutual

/-- The fault that a value refuses to be a key with, if it does: that of the first of its parts that
refuses. The elements of a set are keys. -/
def keyFault? : Value → Option Fault
  | list _ => some (.unhashable "list")
  | tuple items => keyFaultIn? items
  | coord conj items => (keyFault? conj).or (keyFaultIn? items)
  | composed outer inner => (keyFault? outer).or (keyFault? inner)
  | func _ parameters arguments => (keyFaultIn? parameters).or (keyFaultIn? arguments)
  | foreign object => object.refusal
  | _ => Option.none

/-- The fault of the first value of a list that refuses to be a key, if one does. -/
def keyFaultIn? : List Value → Option Fault
  | [] => Option.none
  | v :: vs => (keyFault? v).or (keyFaultIn? vs)

end

def hashable (v : Value) : Bool := v.keyFault?.isNone

/-- Asks whether a value can be a key. Only a fault of a type is taken for a no; any other fault of
the value is one of the question. -/
def checkKey (v : Value) : Except Fault Bool :=
  match v.keyFault? with
  | Option.none => .ok true
  | some fault => if fault.kind.coveredBy [.type] then .ok false else .error fault

/-- Whether a value refuses to be a key, if at all, with a fault of a type. -/
def RefusesByType (v : Value) : Prop :=
  ∀ fault, v.keyFault? = some fault → fault.kind.coveredBy [.type] = true

/-- Whether a value counts as true: nothing, zero and everything empty count as false. -/
def truth : Value → Bool
  | none => false
  | bool b => b
  | int n => n != 0
  | real x => x != 0.0
  | text s => s != ""
  | tuple items | list items | set items => !items.isEmpty
  | _ => true

/-- Whether a value is a collection without items. A text is no collection. -/
def isEmptyCollection : Value → Bool
  | tuple items | list items | set items => items.isEmpty
  | _ => false

@[simp] theorem hashable_composed (outer inner : Value) :
    (composed outer inner).hashable = (outer.hashable && inner.hashable) := by
  simp [hashable, keyFault?]

theorem keyFault?_eq_none {v : Value} : v.keyFault? = Option.none ↔ v.hashable = true := by
  rw [hashable, Option.isNone_iff_eq_none]

theorem RefusesByType.of_hashable {v : Value} (h : v.hashable = true) : v.RefusesByType := by
  intro fault hfault
  rw [keyFault?_eq_none.2 h] at hfault
  cases hfault

/-- Of a value that refuses with a fault of a type, if at all, it is told whether it is a key. -/
theorem checkKey_of_refusesByType {v : Value} (h : v.RefusesByType) :
    v.checkKey = .ok v.hashable := by
  rw [checkKey, hashable]
  split
  · rename_i hnone
    rw [hnone]
    rfl
  · rename_i fault hsome
    rw [if_pos (h fault hsome), hsome]
    rfl

theorem checkKey_of_hashable {v : Value} (h : v.hashable = true) : v.checkKey = .ok true := by
  rw [checkKey_of_refusesByType (.of_hashable h), h]

theorem refusesByType_of_checkKey {v : Value} {key : Bool} (h : v.checkKey = .ok key) :
    v.RefusesByType := by
  intro fault hfault
  rw [checkKey, hfault] at h
  dsimp only at h
  split at h
  · assumption
  · cases h

/-- A question that has no fault is asked just of the values that refuse, if at all, with a fault of
a type. -/
theorem refusesByType_iff {v : Value} : v.RefusesByType ↔ ∀ fault, v.checkKey ≠ .error fault := by
  constructor
  · intro h fault hfault
    rw [checkKey_of_refusesByType h] at hfault
    cases hfault
  · intro h
    cases hkey : v.checkKey with
    | ok key => exact refusesByType_of_checkKey hkey
    | error fault => exact absurd hkey (h fault)

/-- The answer to the question if a value can be a key is right. -/
theorem hashable_of_checkKey {v : Value} {key : Bool} (h : v.checkKey = .ok key) :
    v.hashable = key := by
  rw [checkKey_of_refusesByType (refusesByType_of_checkKey h)] at h
  exact Except.ok.inj h

end Value

end Categorial
