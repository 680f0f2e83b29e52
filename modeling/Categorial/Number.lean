import Categorial.Decimal.Quotient
import Categorial.Decimal.Shortest
import Categorial.Fault

/-!
Numbers as they are read: exact integers of any size, truth values, which count as one and zero, and
floating-point values. Integers stay exact among themselves, and under powers with a natural
exponent; everything else is floating-point. An integer that is too large for a floating-point value
cannot be combined with one, though the two are compared all the same. Main statement: whole numbers
are compared as integers are.
-/

namespace Categorial

/-- A number as it is read. -/
inductive Number where
  | int (n : Int)
  | truth (b : Bool)
  | real (x : Float)

namespace Number

-- powers are the built-in ones, whatever else is imported
attribute [local instance (high)] instPowNat

/-- What a number is worth: an integer or a floating-point value. -/
def worth : Number → Int ⊕ Float
  | int n => .inl n
  | truth b => .inl (if b then 1 else 0)
  | real x => .inr x

/-- The integer that a number is, for uses that need one. -/
def whole (x : Number) : Except Fault Int :=
  match x.worth with
  | .inl n => .ok n
  | .inr _ => .error .notWhole

/-- Whether an integer is near enough to zero to have a floating-point value: nearer than the middle
between the greatest such value and the power of two above it, which is `(2 ^ 54 - 1) * 2 ^ 970`. -/
def fits (n : Int) : Bool := n.natAbs >>> 970 < 2 ^ (54 : Nat) - 1

/-- The floating-point value nearest to an integer; infinite for one that is too large. -/
def nearest (n : Int) : Float :=
  let magnitude := Decimal.nearestQuotient n.natAbs 1
  if n < 0 then -magnitude else magnitude

/-- The floating-point value nearest to an integer, unless the integer is too large for one. -/
def ofInt? (n : Int) : Except Fault Float :=
  if fits n then .ok (nearest n) else .error .tooLarge

def toFloat (x : Number) : Except Fault Float :=
  match x.worth with
  | .inl n => ofInt? n
  | .inr x => .ok x

/-- Whether a number has a floating-point value. -/
def hasFloat (x : Number) : Bool :=
  match x.worth with
  | .inl n => fits n
  | .inr _ => true

/-- The floating-point value nearest to a number; infinite for an integer that is too large. -/
def approx (x : Number) : Float :=
  match x.worth with
  | .inl n => nearest n
  | .inr x => x

/-- The text of a number, integers with all their digits. -/
def text : Number → String
  | int n => toString n
  | truth b => if b then "True" else "False"
  | real x => Decimal.shortest x

/-- How an integer compares with a floating-point value; not at all with an undefined one. -/
def compareInt (n : Int) (x : Float) : Option Ordering :=
  match Decimal.parts x with
  | .nan => none
  | .infinite negative => some (if negative then .gt else .lt)
  | .finite negative m q _ =>
    let signed : Int := if negative then -m else m
    some (compare (n * 2 ^ (-q).toNat) (signed * 2 ^ q.toNat))

/-- Whether two numbers have the same value. -/
def same (a b : Number) : Bool :=
  match a.worth, b.worth with
  | .inl a, .inl b => a == b
  | .inr x, .inr y => x == y
  | .inl n, .inr x | .inr x, .inl n => compareInt n x == some .eq

/-- Whether a number is less than another one. -/
def lt (a b : Number) : Bool :=
  match a.worth, b.worth with
  | .inl a, .inl b => a < b
  | .inr x, .inr y => x < y
  | .inl n, .inr x => compareInt n x == some .lt
  | .inr x, .inl n => compareInt n x == some .gt

/-- Whether a number is less than another one or has the same value. -/
def le (a b : Number) : Bool := lt a b || same a b

/-- Whether a number is below zero. -/
def isNegative (x : Number) : Bool := lt x (int 0)

def isAtMostZero (x : Number) : Bool := le x (int 0)

/-- Combines two numbers, integers exactly and others in floating point. -/
def combine (exact : Int → Int → Int) (inexact : Float → Float → Float) (a b : Number) : Number :=
  match a.worth, b.worth with
  | .inl a, .inl b => int (exact a b)
  | _, _ => real (inexact a.approx b.approx)

instance : Add Number := ⟨combine (· + ·) (· + ·)⟩

instance : Sub Number := ⟨combine (· - ·) (· - ·)⟩

instance : Mul Number := ⟨combine (· * ·) (· * ·)⟩

instance : Neg Number where
  neg x := match x.worth with
    | .inl n => int (-n)
    | .inr x => real (-x)

/-- The floating-point value nearest to a quotient of integers; infinite if it is too large. -/
def quotient (a b : Int) : Float :=
  let magnitude := Decimal.nearestQuotient a.natAbs b.natAbs
  if (a < 0) != (b < 0) then -magnitude else magnitude

instance : Div Number where
  div a b := match a.worth, b.worth with
    | .inl a, .inl b => real (quotient a b)
    | _, _ => real (a.approx / b.approx)

/-- Whether two numbers can be combined: both are integers, or both have a floating-point value. -/
def combinable (a b : Number) : Bool :=
  match a.worth, b.worth with
  | .inl _, .inl _ => true
  | _, _ => a.hasFloat && b.hasFloat

def mul (a b : Number) : Except Fault Number :=
  if combinable a b then .ok (a * b) else .error .tooLarge

/-- The quotient of two numbers, for a divisor that is not zero. -/
def dividedBy (a b : Number) : Except Fault Number :=
  match a.worth, b.worth with
  | .inl a, .inl b =>
    let x := quotient a b
    if x.isInf then .error .tooLarge else .ok (real x)
  | _, _ => if combinable a b then .ok (a / b) else .error .tooLarge

/-- A floating-point power of a natural base. Zero has no finite negative power. -/
def realPower (base : Nat) (e : Float) : Except Fault Number := do
  if base = 0 && e < 0.0 && e.isFinite then .error .zeroToNegative
  let b ← ofInt? base
  let power := Float.pow b e
  if power.isInf && !e.isInf then .error .powerTooLarge
  return real power

/-- A natural raised to a natural. The powers of zero and one take no multiplication, however large
the exponent is. -/
def naturalPower (base e : Nat) : Nat :=
  if base = 1 then 1 else if base = 0 then (if e = 0 then 1 else 0) else base ^ e

/-- A natural raised to a number; exact if the exponent is a natural. -/
def power (base : Nat) (exponent : Number) : Except Fault Number :=
  match exponent.worth with
  | .inl (.ofNat e) => .ok (int (naturalPower base e))
  | .inl e => do realPower base (← ofInt? e)
  | .inr e => realPower base e

/-- Whole numbers are compared as integers are. -/
@[simp] theorem lt_int (a b : Int) : lt (int a) (int b) = decide (a < b) := rfl

/-- Whole numbers are compared as integers are, also where they may be the same. -/
@[simp] theorem le_int (a b : Int) : le (int a) (int b) = decide (a ≤ b) := by
  rw [Bool.eq_iff_iff]
  simp only [le, lt_int, same, worth, Bool.or_eq_true, decide_eq_true_eq, beq_iff_eq]
  omega

end Number

end Categorial
