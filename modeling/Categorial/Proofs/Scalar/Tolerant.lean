import Categorial.Proofs.Scalar.Order

/-!
Scores up to what is lost when they are added to zero. A sum that starts from zero has no negative
zero, so a score and its sum with zero may be two scores of one value. Main statement: sums of
scores that are alike are alike, also where some of the scores are not found, and scores that are
alike have the same value.
-/

namespace Categorial

/-- Scores with a relation that does not tell a score from its sum with zero. Scores that are alike
have the same value, and so have their sums and products. -/
class TolerantScalar (K : Type) [Scalar K] [OrderedScalar K] where
  Alike : K → K → Prop
  refl (x : K) : Alike x x
  zero_add (x : K) : Alike (0 + x) x
  add {x x' y y' : K} : Alike x x' → Alike y y' → Alike (x + y) (x' + y')
  mul {x x' y y' : K} : Alike x x' → Alike y y' → Alike (x * y) (x' * y')
  combinable_eq {x x' y y' : K} : Alike x x' → Alike y y' →
    Scalar.combinable x y = Scalar.combinable x' y'
  value?_eq {x y : K} : Alike x y → OrderedScalar.value? x = OrderedScalar.value? y

/-- Rational scores are alike if they are the same. -/
instance : TolerantScalar Rat where
  Alike := Eq
  refl _ := rfl
  zero_add := Rat.zero_add
  add := congrArg₂ (· + ·)
  mul := congrArg₂ (· * ·)
  combinable_eq _ _ := rfl
  value?_eq := congrArg OrderedScalar.value?

open TolerantScalar

variable {K : Type} [Scalar K] [OrderedScalar K] [TolerantScalar K]

/-- Whether two results are one fault or scores that are alike. -/
inductive AlikeResult : Except Fault K → Except Fault K → Prop
  | ok {x y : K} (h : Alike x y) : AlikeResult (.ok x) (.ok y)
  | error (fault : Fault) : AlikeResult (.error fault) (.error fault)

theorem AlikeResult.refl (x : Except Fault K) : AlikeResult x x := by
  cases x with
  | error fault => exact .error fault
  | ok x => exact .ok (TolerantScalar.refl x)

theorem AlikeResult.bind {x y : Except Fault K} (h : AlikeResult x y) {f g : K → Except Fault K}
    (hfg : ∀ {a b : K}, Alike a b → AlikeResult (f a) (g b)) :
    AlikeResult (x.bind f) (y.bind g) := by
  cases h with
  | ok h => exact hfg h
  | error fault => exact .error fault

/-- Results that are alike are one fault or scores of one value. -/
theorem AlikeResult.value?_eq {x y : Except Fault K} (h : AlikeResult x y) :
    x.map OrderedScalar.value? = y.map OrderedScalar.value? := by
  cases h with
  | ok h => exact congrArg Except.ok (TolerantScalar.value?_eq h)
  | error fault => rfl

namespace Scalar

/-- Sums of scores that are alike are alike. -/
theorem sum_alike {xs ys : List K} (h : List.Forall₂ Alike xs ys) : Alike (sum xs) (sum ys) := by
  suffices hacc : ∀ {a b : K}, Alike a b → Alike (xs.foldl (· + ·) a) (ys.foldl (· + ·) b) from
    hacc (TolerantScalar.refl 0)
  induction h with
  | nil => exact fun hab => hab
  | cons hxy _ ih => exact fun hab => ih (TolerantScalar.add hab hxy)

theorem plus_alike {x x' y y' : K} (hx : Alike x x') (hy : Alike y y') :
    AlikeResult (plus x y) (plus x' y') := by
  rw [plus, plus, checked, checked, combinable_eq hx hy]
  split
  · exact .ok (TolerantScalar.add hx hy)
  · exact .error _

/-- Sums of results that are alike are alike. -/
theorem total_alike {xs ys : List (Except Fault K)} (h : List.Forall₂ AlikeResult xs ys) :
    AlikeResult (total xs) (total ys) := by
  suffices hacc : ∀ {a b : K}, Alike a b →
      AlikeResult (xs.foldlM (fun acc x => do plus acc (← x)) a)
        (ys.foldlM (fun acc x => do plus acc (← x)) b) from
    hacc (TolerantScalar.refl 0)
  induction h with
  | nil => exact fun hab => .ok hab
  | cons hxy _ ih =>
    intro a b hab
    rw [List.foldlM_cons, List.foldlM_cons]
    exact (hxy.bind fun h => plus_alike hab h).bind ih

end Scalar

end Categorial
