import Categorial.Fault

/-!
Positions in a list. Positions below zero count from the end.
-/

namespace Categorial

/-- The position that `i` stands for. -/
def fromStart {α : Type} (xs : List α) (i : Int) : Int := if i < 0 then i + xs.length else i

/-- The item at a position of a list, which must be inside it. -/
def itemAt {α : Type} (xs : List α) (i : Int) : Except Fault α :=
  if 0 ≤ fromStart xs i then
    match xs[(fromStart xs i).toNat]? with
    | some x => .ok x
    | none => .error .noPosition
  else .error .noPosition

end Categorial
