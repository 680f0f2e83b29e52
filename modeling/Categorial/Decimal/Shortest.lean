import Categorial.Decimal.Fixed

/-!
The shortest decimal text of a floating-point value: the fewest digits that read back as the value,
and of those the nearest to it. A decimal reads back exactly when it lies in the interval of reals
that round to the value, whose ends belong to it when the significand is even. The digits are laid
out positionally while the decimal exponent is from -4 to 15, and with an exponent of at least two
digits elsewhere.
-/

namespace Categorial.Decimal

-- powers are the built-in ones, whatever else is imported
attribute [local instance (high)] instPowNat

/-- The decimal `digits * 10 ^ exponent`. -/
structure Digits where
  digits : Nat
  exponent : Int
  deriving DecidableEq, Repr

/-- Compares `a * 10 ^ i` with `n * 2 ^ j` exactly. -/
def compareScaled (a : Nat) (i : Int) (n : Nat) (j : Int) : Ordering :=
  compare (a * 10 ^ i.toNat * 2 ^ (-j).toNat) (n * 2 ^ j.toNat * 10 ^ (-i).toNat)

/-- Whether a decimal is one of the reals that round to `m * 2 ^ q`. -/
def readsBack (m : Nat) (q : Int) (narrowBelow : Bool) (d : Digits) : Bool :=
  let lowerEnd := if narrowBelow then 4 * m - 1 else 4 * m - 2
  let below := compareScaled d.digits d.exponent lowerEnd (q - 2)
  let above := compareScaled d.digits d.exponent (4 * m + 2) (q - 2)
  let endsBelong := m % 2 == 0
  (below == .gt || (endsBelong && below == .eq)) && (above == .lt || (endsBelong && above == .eq))

/-- The least `k` with `m * 2 ^ q < 10 ^ k`, for positive `m`: an estimate from the binary
logarithm, corrected upwards. -/
def decimalScale (m : Nat) (q : Int) : Int :=
  let estimate := ((Nat.log2 m : Int) + q) * 30103 / 100000 - 1
  (List.range 5).findSome? (fun (i : Nat) =>
    if compareScaled 1 (estimate + i) m q == .gt then some (estimate + i) else none)
  |>.getD (estimate + 5)

/-- The integer part of `m * 2 ^ q / 10 ^ e`. -/
def gridFloor (m : Nat) (q e : Int) : Nat :=
  m * 2 ^ q.toNat * 10 ^ (-e).toNat / (2 ^ (-q).toNat * 10 ^ e.toNat)

/-- The decimal with a multiple of `10 ^ e` that reads back, the nearer one if two do, and the one
with the even last digit if they are equally near. -/
def onGrid? (m : Nat) (q : Int) (narrowBelow : Bool) (e : Int) : Option Digits :=
  let lower : Digits := ⟨gridFloor m q e, e⟩
  let upper : Digits := ⟨lower.digits + 1, e⟩
  match readsBack m q narrowBelow lower, readsBack m q narrowBelow upper with
  | true, false => some lower
  | false, true => some upper
  | false, false => none
  | true, true =>
    match compareScaled (lower.digits + upper.digits) e m (q + 1) with
    | .lt => some upper
    | .gt => some lower
    | .eq => some (if lower.digits % 2 = 0 then lower else upper)

/-- The fewest digits that read back as `m * 2 ^ q`, for positive `m`. -/
def shortestDigits (m : Nat) (q : Int) (narrowBelow : Bool) : Digits :=
  let k := decimalScale m q
  (List.range 17).findSome? (fun (i : Nat) => onGrid? m q narrowBelow (k - (i + 1)))
  |>.getD ⟨m * 2 ^ q.toNat * 5 ^ (-q).toNat, -((-q).toNat : Int)⟩

/-- The sign and at least two digits of a decimal exponent. -/
def exponentText (e : Int) : List Char :=
  (if e < 0 then '-' else '+') :: digitsOf 2 e.natAbs

/-- Lays out the digits `ds` of a value whose first digit has the weight `10 ^ e`. -/
def layOut (ds : List Char) (e : Int) : List Char :=
  if e < -4 || 16 ≤ e then
    let mantissa := match ds with
      | d :: r :: rest => d :: '.' :: r :: rest
      | _ => ds
    mantissa ++ 'e' :: exponentText e
  else if e < 0 then
    '0' :: '.' :: List.replicate (-e - 1).toNat '0' ++ ds
  else
    let n := e.toNat + 1
    let fraction := ds.drop n
    ds.take n ++ List.replicate (n - ds.length) '0' ++
      '.' :: (if fraction.isEmpty then ['0'] else fraction)

/-- The digits without the zeros at their end. -/
def dropEndZeros (ds : List Char) : List Char :=
  (ds.reverse.dropWhile (· == '0')).reverse

/-- The shortest text that reads back as a floating-point value. -/
def shortest (x : Float) : String :=
  match parts x with
  | .nan => "nan"
  | .infinite negative => if negative then "-inf" else "inf"
  | .finite negative m q narrowBelow =>
    let sign := if negative then ['-'] else []
    if m = 0 then String.ofList (sign ++ "0.0".toList)
    else
      let d := shortestDigits m q narrowBelow
      let ds := Nat.toDigits 10 d.digits
      String.ofList (sign ++ layOut (dropEndZeros ds) (d.exponent + ds.length - 1))

end Categorial.Decimal
