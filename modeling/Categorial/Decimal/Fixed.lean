import Categorial.Decimal.Binary

/-!
Decimal text with a fixed number of places. The exact value is rounded once, to the nearest decimal
of that many places, and a tie goes to the even last digit.
-/

namespace Categorial.Decimal

-- powers are the built-in ones, whatever else is imported
attribute [local instance (high)] instPowNat

/-- The natural nearest to `num / den`; of two equally near the even one. -/
def roundDiv (num den : Nat) : Nat :=
  match compare (2 * (num % den)) den with
  | .lt => num / den
  | .gt => num / den + 1
  | .eq => num / den + num / den % 2

/-- Digits of a natural, with zeros in front of it up to a width. -/
def digitsOf (width n : Nat) : List Char :=
  let ds := Nat.toDigits 10 n
  List.replicate (width - ds.length) '0' ++ ds

/-- The text of `units / 10 ^ places`. -/
def withPoint (places units : Nat) : List Char :=
  if places = 0 then digitsOf 1 units
  else
    digitsOf 1 (units / 10 ^ places) ++ '.' :: digitsOf places (units % 10 ^ places)

/-- The text of `± num / den` with a fixed number of places; the sign stays on a rounded zero. -/
def fixedQuotient (places : Nat) (negative : Bool) (num den : Nat) : String :=
  String.ofList ((if negative then ['-'] else []) ++
    withPoint places (roundDiv (num * 10 ^ places) den))

/-- A floating-point value with a fixed number of places. -/
def fixed (places : Nat) (x : Float) : String :=
  match parts x with
  | .nan => "nan"
  | .infinite negative => if negative then "-inf" else "inf"
  | .finite negative m q _ =>
    fixedQuotient places negative (m * 2 ^ q.toNat) (2 ^ (-q).toNat)

end Categorial.Decimal
