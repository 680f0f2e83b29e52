import Categorial.Decimal.Fixed

/-!
The floating-point value nearest to a quotient of naturals. The quotient is rounded once, to a
significand of at most 53 bits, and a tie goes to the even significand; a quotient below the range
of full significands keeps fewer bits.
-/

namespace Categorial.Decimal

-- powers are the built-in ones, whatever else is imported
attribute [local instance (high)] instPowNat

/-- The least binary exponent of a finite value. -/
def leastExponent : Int := -1074

/-- The integer part of the binary logarithm of `num / den`, for positive naturals. -/
def floorLog (num den : Nat) : Int :=
  let estimate : Int := (Nat.log2 num : Int) - Nat.log2 den
  if den * 2 ^ estimate.toNat ≤ num * 2 ^ (-estimate).toNat then estimate else estimate - 1

/-- The value `m * 2 ^ q`, for `m` of at most 53 bits, and of fewer bits only if `q` is the least
exponent; infinite if it is too large. Significand and exponent lie side by side in its bits, so
that a carry out of the significand moves the exponent. -/
def ofSignificand (m : Nat) (q : Int) : Float :=
  let bits := m + (q - leastExponent).toNat * 2 ^ (52 : Nat)
  if (2 ^ (11 : Nat) - 1) * 2 ^ (52 : Nat) ≤ bits then 1.0 / 0.0 else Float.ofBits bits.toUInt64

/-- The value nearest to `num / den`, for positive `den`; infinite if the quotient is too large. -/
def nearestQuotient (num den : Nat) : Float :=
  if num = 0 then 0.0
  else
    let q := max (floorLog num den - 52) leastExponent
    ofSignificand (roundDiv (num * 2 ^ (-q).toNat) (den * 2 ^ q.toNat)) q

end Categorial.Decimal
