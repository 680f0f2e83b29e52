import Categorial.Collection.Ranked

/-!
Galloping: a search that starts at a hint and doubles its stride until it has gone too far, and then
halves what lies between its last two stops. Where the elements that belong before the position come
first, any hint leads to the same position; elsewhere the hint decides which elements are looked at.
-/

namespace Categorial

variable {α : Type}

/-- The last two stops of a gallop, with strides of one, three, seven and so on: it goes on while it
may, and ends at a limit. -/
def stride (goesOn : Nat → Bool) (limit last next : Nat) : Nat × Nat :=
  if next < limit ∧ goesOn next then stride goesOn limit next (2 * next + 1)
  else (last, min next limit)
termination_by limit - next
decreasing_by omega

/-- The number of elements that belong `before` the position sought, looked for from a hint. -/
def gallop (before : α → Bool) (xs : Array α) (hint : Nat) : Nat :=
  let atHint (i : Nat) : Bool := xs[i]?.any before
  if atHint hint then
    let (last, next) := stride (fun i => atHint (hint + i)) (xs.size - hint) 0 1
    halve before xs (hint + last + 1) (hint + next)
  else
    let (last, next) := stride (fun i => !atHint (hint - i)) (hint + 1) 0 1
    halve before xs (hint + 1 - next) (hint - last)

end Categorial
