import Categorial.Decimal.Binary
import Categorial.Text.Blank
import Categorial.Text.DecimalDigit
import Categorial.Text.Lowercase

/-!
Reading a floating-point value from text. The text may have blanks around it; then come a sign,
digits of any script with single underscores between them, a fraction and an exponent, or one of the
words for infinity and for an undefined value. The nearest value is taken, and a number too large
for every finite value reads as infinite.
-/

namespace Categorial.Decimal

open Categorial.Text

/-- A run of digits with single underscores between them, and the text after it. An underscore that
no digit follows is left in the text. -/
def digitRun : List Char → List Nat × List Char
  | [] => ([], [])
  | c :: cs =>
    match digitValue? c with
    | none => ([], c :: cs)
    | some d =>
      match cs with
      | '_' :: c' :: r =>
        if (digitValue? c').isSome then
          let rest := digitRun (c' :: r)
          (d :: rest.1, rest.2)
        else ([d], cs)
      | cs =>
        let rest := digitRun cs
        (d :: rest.1, rest.2)
termination_by cs => cs.length

/-- The natural that a run of digits stands for. -/
def ofDigits (ds : List Nat) : Nat :=
  ds.foldl (fun n d => 10 * n + d) 0

/-- An optional sign: whether it is a minus, and the text after it. -/
def signOf : List Char → Bool × List Char
  | '-' :: cs => (true, cs)
  | '+' :: cs => (false, cs)
  | cs => (false, cs)

/-- The value nearest to `m * 10 ^ e`. Exponents far outside the range of finite values are settled
by the magnitude alone. -/
def nearest (m : Nat) (e : Int) : Float :=
  if m = 0 then 0.0
  else
    let magnitude := e + (Nat.toDigits 10 m).length
    if 400 < magnitude then 1.0 / 0.0
    else if magnitude < -400 then 0.0
    else Float.ofScientific m (e < 0) e.natAbs

/-- The exponent part at the end of a number, zero if there is none. -/
def exponentOf? : List Char → Option Int
  | [] => some 0
  | c :: cs =>
    if c = 'e' || c = 'E' then
      let (negative, r) := signOf cs
      match digitRun r with
      | (d :: ds, []) =>
        let n : Int := ofDigits (d :: ds)
        some (if negative then -n else n)
      | _ => none
    else none

/-- An unsigned decimal number that is the whole text. -/
def unsigned? (cs : List Char) : Option Float :=
  let (whole, r) := digitRun cs
  let (fraction, r) := match r with
    | '.' :: r => digitRun r
    | r => ([], r)
  if whole.isEmpty && fraction.isEmpty then none
  else (exponentOf? r).map fun e => nearest (ofDigits (whole ++ fraction)) (e - fraction.length)

/-- Whether a character may stand around a number: a blank that is none of the ASCII separators of
files, groups, records and units. -/
def isPadding (c : Char) : Bool := isBlank c && !(0x1c ≤ c.toNat && c.toNat ≤ 0x1f)

/-- The text without the padding at either end. -/
def dropPadding (cs : List Char) : List Char :=
  ((cs.dropWhile isPadding).reverse.dropWhile isPadding).reverse

/-- The value that a text stands for, if it is a number. -/
def ofText? (s : String) : Option Float :=
  let (negative, r) := signOf (dropPadding s.toList)
  let word := lower (String.ofList r)
  let magnitude :=
    if word = "inf" || word = "infinity" then some (1.0 / 0.0)
    else if word = "nan" then some (0.0 / 0.0)
    else unsigned? r
  magnitude.map fun x => if negative then -x else x

end Categorial.Decimal
