import Categorial.Note

/-!
Computations that take notes and may fail. The notes survive a failure. Main statement: forgetting
the notes turns a sequence of steps into the same sequence of steps that only may fail, so a law
about results never has to mention notes.
-/

namespace Categorial

/-- A result or a fault, and the notes taken on the way. -/
structure Traced (α : Type) where
  notes : List Note
  result : Except Fault α

namespace Traced

instance : Monad Traced where
  pure a := ⟨[], .ok a⟩
  bind x f := match x.result with
    | .error fault => ⟨x.notes, .error fault⟩
    | .ok a =>
      let y := f a
      ⟨x.notes ++ y.notes, y.result⟩

/-- A result or a fault without notes. -/
def ofExcept {α : Type} (x : Except Fault α) : Traced α := ⟨[], x⟩

def note (n : Note) : Traced Unit := ⟨[n], .ok ()⟩

def fail {α : Type} (fault : Fault) : Traced α := ⟨[], .error fault⟩

variable {α β : Type}

@[simp] theorem result_pure (a : α) : (pure a : Traced α).result = .ok a := rfl

@[simp] theorem result_ofExcept (x : Except Fault α) : (ofExcept x).result = x := rfl

@[simp] theorem result_fail (fault : Fault) : (fail fault : Traced α).result = .error fault := rfl

/-- Forgetting the notes keeps sequences of steps. -/
@[simp] theorem result_bind (x : Traced α) (f : α → Traced β) :
    (x >>= f).result = x.result.bind fun a => (f a).result := by
  cases h : x.result <;> simp [bind, h, Except.bind]

@[simp] theorem result_map (f : α → β) (x : Traced α) :
    (f <$> x).result = x.result.map f := by
  cases h : x.result <;> simp [Functor.map, h, Except.map]

end Traced

end Categorial
