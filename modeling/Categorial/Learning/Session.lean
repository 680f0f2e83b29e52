import Categorial.Learning.Event
import Categorial.Learning.Stats

/-!
A session of learning: the model, the statistics and what the observers have written down so far. A
step of a session may fail, and then leaves the session as it was at that point. Main statement: a
sequence of steps stops at the first that fails.
-/

namespace Categorial

structure Session (K : Type) where
  model : Model K
  stats : Stats K
  /-- The number of updates so far. -/
  updates : Nat
  trace : List (Trace K)
  events : List (Event K)
  notes : List Note

/-- A step of a session. -/
def Training (K α : Type) := Session K → Except Fault α × Session K

namespace Training

variable {K α β : Type}

instance : Monad (Training K) where
  pure a := fun s => (.ok a, s)
  bind x f := fun s =>
    match x s with
    | (.ok a, s) => f a s
    | (.error fault, s) => (.error fault, s)

def session : Training K (Session K) := fun s => (.ok s, s)

def change (f : Session K → Session K) : Training K Unit := fun s => (.ok (), f s)

/-- A result that does not depend on the session. -/
def lift (x : Except Fault α) : Training K α := fun s => (x, s)

/-- A result with notes. -/
def traced (x : Traced α) : Training K α := fun s =>
  (x.result, { s with notes := s.notes ++ x.notes })

def note (n : Note) : Training K Unit := fun s => (.ok (), { s with notes := s.notes ++ [n] })

/-- Changes the statistics. -/
def count (f : Stats K → Stats K) : Training K Unit :=
  change fun s => { s with stats := f s.stats }

/-- Records something in the statistics, which may fail. -/
def record (f : Stats K → Except Fault Unit × Stats K) : Training K Unit := fun s =>
  let (outcome, stats) := f s.stats
  (outcome, { s with stats := stats })

@[simp] theorem lift_run (x : Except Fault α) (s : Session K) : lift x s = (x, s) := rfl

theorem bind_run_ok {x : Training K α} {f : α → Training K β} {s t : Session K} {a : α}
    (h : x s = (.ok a, t)) : (x >>= f) s = f a t := by
  simp [bind, h]

/-- A sequence of steps stops at the first that fails. -/
theorem bind_run_error {x : Training K α} {f : α → Training K β} {s t : Session K} {fault : Fault}
    (h : x s = (.error fault, t)) : (x >>= f) s = (.error fault, t) := by
  simp [bind, h]

end Training

end Categorial
