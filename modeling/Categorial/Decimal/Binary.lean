/-!
Floating-point values taken apart. A finite value is `± m * 2 ^ q` with natural `m`; the shortest
and the fixed decimal texts and exact comparison are all computed from `m` and `q`.
-/

namespace Categorial.Decimal

-- powers are the built-in ones, whatever else is imported
attribute [local instance (high)] instPowNat

/-- A floating-point value, taken apart. -/
inductive Parts where
  | nan
  | infinite (negative : Bool)
  /-- The value `m * 2 ^ q`, negated if `negative`. `narrowBelow` tells that the gap to the value
  below is half the gap to the value above. -/
  | finite (negative : Bool) (m : Nat) (q : Int) (narrowBelow : Bool)
  deriving DecidableEq, Repr

/-- Splits a value into its sign, its integer significand and its binary exponent. -/
def parts (x : Float) : Parts :=
  let bits := x.toBits.toNat
  let negative := bits / 2 ^ (63 : Nat) == 1
  let exponent : Nat := bits / 2 ^ (52 : Nat) % 2 ^ (11 : Nat)
  let fraction : Nat := bits % 2 ^ (52 : Nat)
  if exponent = 2 ^ (11 : Nat) - 1 then
    if fraction = 0 then .infinite negative else .nan
  else if exponent = 0 then .finite negative fraction (-1074) false
  else
    .finite negative (2 ^ (52 : Nat) + fraction) ((exponent : Int) - 1075)
      (fraction == 0 && 1 < exponent)

/-- The exact value of `m * 2 ^ q`. -/
def scaled (m : Nat) (q : Int) : Rat :=
  if 0 ≤ q then (m * 2 ^ q.toNat : Nat) else mkRat m (2 ^ (-q).toNat)

/-- The exact value of a floating-point value, if it is finite. -/
def rational? (x : Float) : Option Rat :=
  match parts x with
  | .finite negative m q _ => some (if negative then -scaled m q else scaled m q)
  | _ => none

end Categorial.Decimal
