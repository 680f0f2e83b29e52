import Categorial.Number

/-!
The numbers that scores and weights are made of. Everything above this module is written for any
such type: numbers as they are read where the program runs, and rational numbers where sums are to
be exact. Rational numbers can always be combined: a checked sum of two of them is their sum.
-/

namespace Categorial

/-- A type of scores. The comparisons are those of the type: with an undefined value all of them are
false. -/
class Scalar (K : Type) extends Zero K, One K, Add K, Sub K, Mul K, Div K, Neg K where
  /-- Equality of values. -/
  same : K → K → Bool
  lt : K → K → Bool
  le : K → K → Bool
  ofNat : Nat → K
  /-- The score that a number stands for. -/
  ofNumber : Number → Except Fault K
  /-- Whether two scores can be added, subtracted and multiplied. -/
  combinable : K → K → Bool
  /-- A quotient by a divisor that is not zero. -/
  dividedBy : K → K → Except Fault K
  /-- The value that a score has as a weight, of which vectors and averages are made. Weights can be
  combined with each other. -/
  weight : K → Except Fault K
  /-- Decimal text of a weight with a fixed number of places. -/
  fixed : Nat → K → String

instance : Scalar Number where
  zero := .int 0
  one := .real 1.0
  same := Number.same
  lt := Number.lt
  le := Number.le
  ofNat n := .int n
  ofNumber := .ok
  combinable := Number.combinable
  dividedBy := Number.dividedBy
  weight x := x.toFloat.map .real
  fixed places x := Decimal.fixed places x.approx

instance : Scalar Rat where
  toZero := Zero.ofOfNat0
  toOne := One.ofOfNat1
  same x y := x == y
  lt x y := x < y
  le x y := x ≤ y
  ofNat n := n
  ofNumber x := match x.worth with
    | .inl n => .ok n
    | .inr x => match Decimal.rational? x with
      | some r => .ok r
      | none => .error .tooLarge
  combinable _ _ := true
  dividedBy x y := .ok (x / y)
  weight := .ok
  fixed places x := Decimal.fixedQuotient places (x < 0) x.num.natAbs x.den

namespace Scalar

variable {K : Type} [Scalar K]

/-- A score, if two others could be combined to it. -/
def checked (x y result : K) : Except Fault K :=
  if combinable x y then .ok result else .error .tooLarge

/-- The sum of two scores. -/
def plus (x y : K) : Except Fault K := checked x y (x + y)

/-- The difference of two scores. -/
def minus (x y : K) : Except Fault K := checked x y (x - y)

/-- The product of two scores. -/
def times (x y : K) : Except Fault K := checked x y (x * y)

/-- The sum of a list of weights, added up from zero, left to right. -/
def sum (xs : List K) : K :=
  xs.foldl (· + ·) 0

/-- The sum of a list of scores, added up from zero, left to right; each is found when its turn
comes, and the first fault ends the sum. -/
def total (xs : List (Except Fault K)) : Except Fault K :=
  xs.foldlM (fun acc x => do plus acc (← x)) 0

/-- The distance of a score from zero. -/
def abs (x : K) : K :=
  if lt x 0 then -x else x

/-- The first of the greatest scores of a list that starts with `x`. -/
def maximum (x : K) (xs : List K) : K :=
  xs.foldl (fun best y => if lt best y then y else best) x

/-- Decimal text of a score with a fixed number of places. -/
def shown (places : Nat) (x : K) : Except Fault String := (weight x).map (fixed places)

/-- Rational numbers can always be added. -/
@[simp] theorem plus_rat (x y : Rat) : plus x y = .ok (x + y) := rfl

/-- Rational numbers can always be multiplied. -/
@[simp] theorem times_rat (x y : Rat) : times x y = .ok (x * y) := rfl

end Scalar

end Categorial
