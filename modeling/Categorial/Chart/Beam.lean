import Categorial.Chart.Cell
import Categorial.Collection.Ranked

/-!
Beams: the best cells of one span. Cells are ranked by a primary score, then by a second one,
greater scores first, and then by their arrival. A full beam takes a new cell only if it goes before
the last one, which then has to leave. The size of a beam need not be whole: one for two and a half
cells keeps two, takes every third one, and lets the last of the three go. Main statement: a beam
for a natural number of cells keeps at most that many.
-/

namespace Categorial

/-- The scores that a cell is ranked by. -/
structure Rank (K : Type) where
  primary : K
  second : K

/-- A cell in a beam, with its rank and the number of cells that were offered before it. -/
structure Placed (K : Type) where
  rank : Rank K
  arrival : Nat
  cell : Cell K

namespace Placed

variable {K : Type} [Scalar K]

/-- Whether `a` goes before `b`: the first pair of scores that differ decides. -/
def before (a b : Placed K) : Bool :=
  if !Scalar.same a.rank.primary b.rank.primary then Scalar.lt b.rank.primary a.rank.primary
  else if !Scalar.same a.rank.second b.rank.second then Scalar.lt b.rank.second a.rank.second
  else a.arrival < b.arrival

/-- Whether `a` does not go before `b`: the first pair of scores that differ decides. With an
undefined score neither this nor `before` need hold. -/
def notBefore (a b : Placed K) : Bool :=
  if !Scalar.same a.rank.primary b.rank.primary then Scalar.le a.rank.primary b.rank.primary
  else if !Scalar.same a.rank.second b.rank.second then Scalar.le a.rank.second b.rank.second
  else b.arrival ≤ a.arrival

end Placed

/-- The ranked cells of a span, the table of the steps that they are, and the number of cells that
were offered so far; a step that the table has is not counted. -/
structure Beam (K : Type) where
  placed : List (Placed K)
  steps : List (Cell K)
  offered : Nat

namespace Beam

variable {K : Type}

def empty : Beam K := ⟨[], [], 0⟩

/-- The cells of a beam, the best one first. -/
def cells (b : Beam K) : List (Cell K) := b.placed.map (·.cell)

def size (b : Beam K) : Nat := b.placed.length

/-- Whether the table of a beam has the step of a derivation that a cell is. -/
def holds (b : Beam K) (c : Cell K) : Bool := b.steps.any fun s => s.sameStep c

/-- A table of steps without the step that a cell is. -/
def forget (steps : List (Cell K)) (c : Cell K) : List (Cell K) :=
  steps.eraseP fun s => s.sameStep c

/-- How many of `n` cells a beam for `room` cells keeps: one leaves as long as they are too many. -/
def kept (room : Number) : Nat → Nat
  | 0 => 0
  | n + 1 => if room.lt (.int (n + 1 : Nat)) then kept room n else n + 1

/-- A beam with room for a natural number of cells keeps that many. -/
theorem kept_int (room n : Nat) : kept (.int room) n = min n room := by
  induction n with
  | zero => simp [kept]
  | succ n ih =>
    rw [kept, Number.lt_int]
    split
    · rename_i h
      simp only [decide_eq_true_eq] at h
      omega
    · rename_i h
      simp only [decide_eq_true_eq] at h
      omega

variable [Scalar K]

/-- Offers a cell to a beam for `room` cells, and tells whether it was taken. -/
def insert (b : Beam K) (room : Number) (rank : Rank K) (c : Cell K) : Bool × Beam K :=
  if b.holds c then (false, b)
  else
    let new : Placed K := ⟨rank, b.offered, c⟩
    if room.le (.int b.size) && b.placed.getLast?.any new.notBefore then
      (false, { b with offered := b.offered + 1 })
    else
      let placed := insertRanked Placed.before new b.placed
      let size := kept room placed.length
      let evicted := (placed.drop size).reverse.map (·.cell)
      (true, ⟨placed.take size, evicted.foldl forget (b.steps ++ [c]), b.offered + 1⟩)

end Beam

end Categorial
