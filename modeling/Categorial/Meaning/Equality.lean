import Categorial.Meaning.Value

/-!
When two values are the same. Truth values, integers and floating-point values are compared as exact
numbers, so that `1`, `1.0` and true are one value; containers are compared by their content, sets
in any order; functions by their symbol, parameters and collected arguments. Main statement: every
value is the same as itself.
-/

namespace Categorial.Value

/-- The exact number that a value stands for. -/
inductive Magnitude where
  | exact (r : Rat)
  | infinite (negative : Bool)
  | undefined
  deriving DecidableEq

/-- The magnitude of a floating-point value. -/
def magnitude (x : Float) : Magnitude :=
  match Decimal.parts x with
  | .nan => .undefined
  | .infinite negative => .infinite negative
  | .finite negative m q _ => .exact (if negative then -Decimal.scaled m q else Decimal.scaled m q)

/-- The magnitude of a value that is a number. -/
def magnitude? : Value → Option Magnitude
  | bool b => some (.exact (if b then 1 else 0))
  | int n => some (.exact n)
  | real x => some (magnitude x)
  | _ => Option.none

/-- Whether two values are numbers of one magnitude. -/
def sameNumber (a b : Value) : Bool :=
  match magnitude? a, magnitude? b with
  | some m, some n => m == n
  | _, _ => false

mutual

def same : Value → Value → Bool
  | none, v => v.isNone
  | bool b, v => sameNumber (bool b) v
  | int n, v => sameNumber (int n) v
  | real x, v => sameNumber (real x) v
  | undefined i, v => match v with
    | undefined j => i == j
    | _ => false
  | text s, v => match v with
    | text t => s == t
    | _ => false
  | tuple xs, v => match v with
    | tuple ys => sameAll xs ys
    | _ => false
  | list xs, v => match v with
    | list ys => sameAll xs ys
    | _ => false
  | set xs, v => match v with
    | set ys => allWithin xs ys && ys.all fun y => anySame xs y
    | _ => false
  | coord c xs, v => match v with
    | coord d ys => same c d && sameAll xs ys
    | _ => false
  | composed f g, v => match v with
    | composed f' g' => same f f' && same g g'
    | _ => false
  | func s ps as, v => match v with
    | func t qs bs => s == t && sameAll ps qs && sameAll as bs
    | _ => false
  | foreign object, v => match v with
    | foreign other => object == other
    | _ => false

/-- Whether two lists hold the same values, position by position. -/
def sameAll : List Value → List Value → Bool
  | [], ys => ys.isEmpty
  | x :: xs, ys => match ys with
    | [] => false
    | y :: ys => same x y && sameAll xs ys

/-- Whether every value of the first list is the same as one of the second. -/
def allWithin : List Value → List Value → Bool
  | [], _ => true
  | x :: xs, ys => (ys.any fun y => same x y) && allWithin xs ys

/-- Whether a value of the list is the same as `y`. -/
def anySame : List Value → Value → Bool
  | [], _ => false
  | x :: xs, y => same x y || anySame xs y

end

/-- Whether two values are equal: the same, unless they are undefined numbers, which are equal to
nothing on their own. -/
def equal (a b : Value) : Bool := !a.isUndefined && same a b

/-- The set of some values: of equal ones the first is kept, and every value must be a key. -/
def setOf (items : List Value) : Except Fault Value :=
  match keyFaultIn? items with
  | some fault => .error fault
  | Option.none =>
    .ok (set (items.foldl (fun kept v => if anySame kept v then kept else kept ++ [v]) []))

theorem anySame_iff {xs : List Value} {y : Value} :
    anySame xs y = true ↔ ∃ x ∈ xs, same x y = true := by
  induction xs with
  | nil => simp [anySame]
  | cons x xs ih => simp [anySame, ih]

theorem allWithin_iff {xs ys : List Value} :
    allWithin xs ys = true ↔ ∀ x ∈ xs, ∃ y ∈ ys, same x y = true := by
  induction xs with
  | nil => simp [allWithin]
  | cons x xs ih => simp [allWithin, ih]

theorem sameNumber_refl {v : Value} {m : Magnitude} (h : magnitude? v = some m) :
    sameNumber v v = true := by
  simp [sameNumber, h]

mutual

/-- Every value is the same as itself. -/
theorem same_refl : ∀ v : Value, same v v = true
  | none => by simp [same, isNone]
  | bool _ => by rw [same]; exact sameNumber_refl rfl
  | int _ => by rw [same]; exact sameNumber_refl rfl
  | real _ => by rw [same]; exact sameNumber_refl rfl
  | undefined _ => by simp [same]
  | text _ => by simp [same]
  | tuple xs => by simp [same, sameAll_refl xs]
  | list xs => by simp [same, sameAll_refl xs]
  | set xs => by
    have h := same_refl_of_mem xs
    simp only [same, Bool.and_eq_true, allWithin_iff, List.all_eq_true, anySame_iff]
    exact ⟨fun x hx => ⟨x, hx, h x hx⟩, fun x hx => ⟨x, hx, h x hx⟩⟩
  | coord c xs => by simp [same, same_refl c, sameAll_refl xs]
  | composed f g => by simp [same, same_refl f, same_refl g]
  | func _ ps as => by simp [same, sameAll_refl ps, sameAll_refl as]
  | foreign _ => by simp [same]

theorem sameAll_refl : ∀ vs : List Value, sameAll vs vs = true
  | [] => by simp [sameAll]
  | v :: vs => by simp [sameAll, same_refl v, sameAll_refl vs]

theorem same_refl_of_mem : ∀ vs : List Value, ∀ v ∈ vs, same v v = true
  | [], _, h => by simp at h
  | v :: vs, w, h => (List.mem_cons.1 h).elim
    (fun e => by rw [e]; exact same_refl v) (fun h => same_refl_of_mem vs w h)

end

end Categorial.Value
