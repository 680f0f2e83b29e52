import Mathlib.Data.Prod.Lex
import Categorial.Chart.Beam
import Categorial.Proofs.Scalar.Order

/-!
Ranks in order. A rank whose scores are defined has a key: the values of its primary and of its
second score, ordered by the first of them that differ. Main statements: placed cells with defined
ranks are compared by their keys, the greater one first, and by their arrivals where those are
equal.
-/

namespace Categorial

variable {K : Type} [Scalar K]

namespace Rank

/-- Whether both scores of a rank are defined. -/
def Defined (r : Rank K) : Prop := Scalar.Defined r.primary ∧ Scalar.Defined r.second

/-- Whether two ranks have the same scores. -/
def same (r r' : Rank K) : Bool :=
  Scalar.same r.primary r'.primary && Scalar.same r.second r'.second

/-- Whether a rank is as high as another one: the first pair of scores that differ decides. -/
def atLeast (r r' : Rank K) : Bool :=
  if !Scalar.same r.primary r'.primary then Scalar.lt r'.primary r.primary
  else if !Scalar.same r.second r'.second then Scalar.lt r'.second r.second
  else true

variable [OrderedScalar K]

/-- The values of a rank, the primary one first. -/
def key (r : Rank K) : WithBot (OrderedScalar.Value K) ×ₗ WithBot (OrderedScalar.Value K) :=
  toLex (OrderedScalar.level r.primary, OrderedScalar.level r.second)

theorem same_iff_key {r r' : Rank K} (h : r.Defined) : r.same r' = true ↔ r.key = r'.key := by
  rw [same, Bool.and_eq_true, OrderedScalar.same_iff_level h.1, OrderedScalar.same_iff_level h.2,
    key, key, EmbeddingLike.apply_eq_iff_eq, Prod.mk.injEq]

theorem key_lt_iff {r r' : Rank K} : r.key < r'.key ↔
    OrderedScalar.level r.primary < OrderedScalar.level r'.primary ∨
      OrderedScalar.level r.primary = OrderedScalar.level r'.primary ∧
        OrderedScalar.level r.second < OrderedScalar.level r'.second :=
  Prod.Lex.toLex_lt_toLex

theorem key_eq_iff {r r' : Rank K} : r.key = r'.key ↔
    OrderedScalar.level r.primary = OrderedScalar.level r'.primary ∧
      OrderedScalar.level r.second = OrderedScalar.level r'.second := by
  rw [key, key, EmbeddingLike.apply_eq_iff_eq, Prod.mk.injEq]

/-- What the first pair of scores that differ decides, said of keys. -/
theorem decided_iff_key {r r' : Rank K} (h : r.Defined) {first second tie : Bool} :
    (if !Scalar.same r.primary r'.primary then first
      else if !Scalar.same r.second r'.second then second else tie) = true ↔
    (OrderedScalar.level r.primary ≠ OrderedScalar.level r'.primary ∧ first = true) ∨
      (OrderedScalar.level r.primary = OrderedScalar.level r'.primary ∧
        OrderedScalar.level r.second ≠ OrderedScalar.level r'.second ∧ second = true) ∨
      r.key = r'.key ∧ tie = true := by
  rw [key_eq_iff]
  by_cases hprimary : Scalar.same r.primary r'.primary = true
  · rw [if_neg (by simp [hprimary])]
    rw [OrderedScalar.same_iff_level h.1] at hprimary
    by_cases hsecond : Scalar.same r.second r'.second = true
    · rw [if_neg (by simp [hsecond])]
      rw [OrderedScalar.same_iff_level h.2] at hsecond
      simp [hprimary, hsecond]
    · rw [if_pos (by simp [hsecond])]
      rw [OrderedScalar.same_iff_level h.2] at hsecond
      simp [hprimary, hsecond]
  · rw [if_pos (by simp [hprimary])]
    rw [OrderedScalar.same_iff_level h.1] at hprimary
    simp [hprimary]

/-- Defined ranks are as high as each other where their keys are. -/
theorem atLeast_iff_key {r r' : Rank K} (h : r.Defined) (h' : r'.Defined) :
    r.atLeast r' = true ↔ r'.key ≤ r.key := by
  rw [atLeast, decided_iff_key h, OrderedScalar.lt_iff_level h'.1 h.1,
    OrderedScalar.lt_iff_level h'.2 h.2, le_iff_lt_or_eq, key_lt_iff, key_eq_iff, key_eq_iff]
  grind

end Rank

namespace Placed

variable [OrderedScalar K] {a b : Placed K}

/-- A cell goes before another one if its key is greater, or the keys are equal and it came
first. -/
theorem before_iff_key (ha : a.rank.Defined) (hb : b.rank.Defined) : a.before b = true ↔
    b.rank.key < a.rank.key ∨ b.rank.key = a.rank.key ∧ a.arrival < b.arrival := by
  rw [before, Rank.decided_iff_key ha, OrderedScalar.lt_iff_level hb.1 ha.1,
    OrderedScalar.lt_iff_level hb.2 ha.2, Rank.key_lt_iff, decide_eq_true_eq]
  grind

/-- A cell does not go before another one if its key is less, or the keys are equal and it did not
come first. -/
theorem notBefore_iff_key (ha : a.rank.Defined) (hb : b.rank.Defined) : a.notBefore b = true ↔
    a.rank.key < b.rank.key ∨ a.rank.key = b.rank.key ∧ b.arrival ≤ a.arrival := by
  rw [notBefore, Rank.decided_iff_key ha, OrderedScalar.le_iff_level ha.1 hb.1,
    OrderedScalar.le_iff_level ha.2 hb.2, Rank.key_lt_iff, decide_eq_true_eq]
  grind

end Placed

end Categorial
