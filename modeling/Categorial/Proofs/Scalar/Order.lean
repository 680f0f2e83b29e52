import Mathlib.Order.WithBot
import Mathlib.Algebra.Order.Ring.Unbundled.Rat
import Categorial.Scalar

/-!
Scores in order. Every defined score has a value in a linear order, and the comparisons of scores
are those of their values; an undefined score has no value and compares with nothing. Main
statements: defined scores are compared as their values are, and rational scores are all defined.
-/

namespace Categorial

/-- Scores whose comparisons are those of values in a linear order. -/
class OrderedScalar (K : Type) [Scalar K] where
  Value : Type
  order : LinearOrder Value
  /-- The value of a score; an undefined score has none. -/
  value? : K → Option Value
  same_iff : ∀ {x y : K}, Scalar.same x y = true ↔ ∃ v, value? x = some v ∧ value? y = some v
  lt_iff : ∀ {x y : K}, Scalar.lt x y = true ↔
    ∃ v w, value? x = some v ∧ value? y = some w ∧ v < w
  le_iff : ∀ {x y : K}, Scalar.le x y = true ↔
    ∃ v w, value? x = some v ∧ value? y = some w ∧ v ≤ w

attribute [reducible, instance] OrderedScalar.order

/-- Whether a score is defined: the same as itself. -/
def Scalar.Defined {K : Type} [Scalar K] (x : K) : Prop := Scalar.same x x = true

instance : OrderedScalar Rat where
  Value := Rat
  order := inferInstance
  value? := some
  same_iff {x y} := by
    simp only [Scalar.same, beq_iff_eq, Option.some.injEq, exists_eq_left']
    exact eq_comm
  lt_iff {x y} := by simp [Scalar.lt]
  le_iff {x y} := by simp [Scalar.le]

/-- Rational scores are defined. -/
theorem defined_rat (x : Rat) : Scalar.Defined x := by
  simp [Scalar.Defined, Scalar.same]

namespace OrderedScalar

variable {K : Type} [Scalar K] [OrderedScalar K]

/-- The value of a score, with a least one for undefined scores. -/
def level (x : K) : WithBot (Value K) := value? x

theorem value?_of_defined {x : K} (h : Scalar.Defined x) : ∃ v, value? x = some v := by
  obtain ⟨v, hv, -⟩ := same_iff.1 h
  exact ⟨v, hv⟩

theorem same_iff_level {x y : K} (hx : Scalar.Defined x) :
    Scalar.same x y = true ↔ level x = level y := by
  obtain ⟨v, hv⟩ := value?_of_defined hx
  rw [same_iff, level, level, hv]
  constructor
  · rintro ⟨w, hw, hy⟩
    rw [hw, hy]
  · intro h
    exact ⟨v, rfl, h.symm⟩

theorem lt_iff_level {x y : K} (hx : Scalar.Defined x) (hy : Scalar.Defined y) :
    Scalar.lt x y = true ↔ level x < level y := by
  obtain ⟨v, hv⟩ := value?_of_defined hx
  obtain ⟨w, hw⟩ := value?_of_defined hy
  have hlevel : level x < level y ↔ v < w := by
    rw [level, level, hv, hw]
    exact WithBot.coe_lt_coe
  rw [lt_iff, hlevel]
  constructor
  · rintro ⟨v', w', hv', hw', h⟩
    rw [hv, Option.some.injEq] at hv'
    rw [hw, Option.some.injEq] at hw'
    rwa [hv', hw']
  · intro h
    exact ⟨v, w, hv, hw, h⟩

theorem le_iff_level {x y : K} (hx : Scalar.Defined x) (hy : Scalar.Defined y) :
    Scalar.le x y = true ↔ level x ≤ level y := by
  obtain ⟨v, hv⟩ := value?_of_defined hx
  obtain ⟨w, hw⟩ := value?_of_defined hy
  have hlevel : level x ≤ level y ↔ v ≤ w := by
    rw [level, level, hv, hw]
    exact WithBot.coe_le_coe
  rw [le_iff, hlevel]
  constructor
  · rintro ⟨v', w', hv', hw', h⟩
    rw [hv, Option.some.injEq] at hv'
    rw [hw, Option.some.injEq] at hw'
    rwa [hv', hw']
  · intro h
    exact ⟨v, w, hv, hw, h⟩

end OrderedScalar

end Categorial
