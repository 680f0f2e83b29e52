import Categorial.Proofs.Decimal.Parts
import Categorial.Proofs.Scalar.Order

/-!
Numbers in order. An integer stands for itself, a truth value for one or zero, and a floating-point
value for what its parts stand for. Main statement: numbers are compared as what they stand for,
integers exactly also with floating-point values, so they are ordered scores.
-/

namespace Categorial

open Decimal

/-- Floating-point values are compared as what they stand for. -/
theorem compare_float (x y : Float) : x.toModel.unpack.compare y.toModel.unpack =
    (parts x).value?.bind fun v => (parts y).value?.map fun w => compare v w := by
  rw [unpack_eq, unpack_eq, compare_unpacked (canonical_parts x) (canonical_parts y)]

namespace Number

/-- Scaled to integers, an integer and a finite value compare as before. -/
theorem compare_scaled (n : Int) (negative : Bool) (m : Nat) (q : Int) :
    compare (n * 2 ^ (-q).toNat) ((if negative then -(m : Int) else m) * 2 ^ q.toNat) =
      compare (n : ℚ) (signed negative m q) := by
  have hpos : (0 : ℚ) < 2 ^ (-q).toNat := pow_pos (by norm_num) _
  have hscale : signed negative m q * 2 ^ (-q).toNat =
      (((if negative then -(m : Int) else m) * 2 ^ q.toNat : Int) : ℚ) := by
    have hpower : (2 : ℚ) ^ q * 2 ^ (-q).toNat = 2 ^ q.toNat := by
      rw [← zpow_natCast, ← zpow_natCast, ← zpow_add₀ (by norm_num)]
      congr 1
      omega
    cases negative with
    | false =>
      push_cast [signed]
      rw [mul_assoc, hpower]
    | true =>
      push_cast [signed]
      rw [if_pos rfl, if_pos rfl, neg_mul, neg_mul, mul_assoc, hpower]
  have hn : ((n * 2 ^ (-q).toNat : Int) : ℚ) = n * 2 ^ (-q).toNat := by push_cast; rfl
  refine compare_congr ?_ ?_
  · rw [← Int.cast_lt (R := ℚ), ← hscale, hn, mul_lt_mul_iff_left₀ hpos]
  · rw [← Int.cast_inj (α := ℚ), ← hscale, hn, mul_left_inj' hpos.ne']

/-- What a number stands for; an undefined one stands for nothing. -/
def value? (x : Number) : Option Extended :=
  match x.worth with
  | .inl n => some (.ofRat n)
  | .inr y => (parts y).value?

/-- How what two numbers stand for compares. -/
def compare? (a b : Number) : Option Ordering :=
  a.value?.bind fun v => b.value?.map fun w => compare v w

theorem compareInt_eq (n : Int) (x : Float) :
    compareInt n x = (parts x).value?.map fun v => compare (Extended.ofRat n) v := by
  rw [compareInt]
  cases parts x with
  | nan => rfl
  | infinite negative =>
    cases negative with
    | false => exact congrArg some (compare_lt_iff_lt.2 (Extended.ofRat_lt_top n)).symm
    | true => exact congrArg some (compare_gt_iff_gt.2 (Extended.bot_lt_ofRat n)).symm
  | finite negative m q w =>
    refine congrArg some ((compare_scaled n negative m q).trans ?_)
    exact (Extended.compare_ofRat _ _).symm

theorem compare_int (n k : Int) : compare (Extended.ofRat n) (Extended.ofRat k) = compare n k := by
  rw [Extended.compare_ofRat]
  exact compare_congr Int.cast_lt Int.cast_inj

/-- Numbers are the same if they stand for the same. -/
theorem same_eq (a b : Number) : a.same b = (a.compare? b == some .eq) := by
  rw [same, compare?, value?, value?]
  cases a.worth with
  | inl n =>
    cases b.worth with
    | inl k =>
      change (n == k) = (some (compare (Extended.ofRat n) (Extended.ofRat k)) == some .eq)
      rw [compare_int, Bool.eq_iff_iff]
      simp
    | inr y => exact congrArg (· == some .eq) (compareInt_eq n y)
  | inr x =>
    cases b.worth with
    | inl k =>
      refine (congrArg (· == some .eq) (compareInt_eq k x)).trans ?_
      change _ = (((parts x).value?.bind fun v => some (compare v (Extended.ofRat k))) == some .eq)
      cases (parts x).value? with
      | none => rfl
      | some v =>
        change (some (compare (Extended.ofRat k) v) == some .eq) =
          (some (compare v (Extended.ofRat k)) == some .eq)
        rw [Bool.eq_iff_iff]
        simp only [beq_iff_eq, Option.some.injEq, compare_eq_iff_eq]
        exact eq_comm
    | inr y => exact congrArg (· == some .eq) (compare_float x y)

/-- A number is less than another one if what it stands for is. -/
theorem lt_eq (a b : Number) : a.lt b = (a.compare? b == some .lt) := by
  rw [lt, compare?, value?, value?]
  cases a.worth with
  | inl n =>
    cases b.worth with
    | inl k =>
      change decide (n < k) = (some (compare (Extended.ofRat n) (Extended.ofRat k)) == some .lt)
      rw [compare_int, Bool.eq_iff_iff]
      simp [compare_lt_iff_lt]
    | inr y => exact congrArg (· == some .lt) (compareInt_eq n y)
  | inr x =>
    cases b.worth with
    | inl k =>
      refine (congrArg (· == some .gt) (compareInt_eq k x)).trans ?_
      change _ = (((parts x).value?.bind fun v => some (compare v (Extended.ofRat k))) == some .lt)
      cases (parts x).value? with
      | none => rfl
      | some v =>
        change (some (compare (Extended.ofRat k) v) == some .gt) =
          (some (compare v (Extended.ofRat k)) == some .lt)
        rw [Bool.eq_iff_iff]
        simp [compare_lt_iff_lt, compare_gt_iff_gt]
    | inr y =>
      refine .trans ?_ (congrArg (· == some .lt) (compare_float x y))
      rw [Bool.eq_iff_iff, decide_eq_true_iff]
      exact decide_eq_true_iff

theorem compare?_eq_some {a b : Number} {o : Ordering} : a.compare? b = some o ↔
    ∃ v w, a.value? = some v ∧ b.value? = some w ∧ compare v w = o := by
  rw [compare?, Option.bind_eq_some_iff]
  constructor
  · rintro ⟨v, hv, h⟩
    obtain ⟨w, hw, ho⟩ := Option.map_eq_some_iff.1 h
    exact ⟨v, w, hv, hw, ho⟩
  · rintro ⟨v, w, hv, hw, ho⟩
    exact ⟨v, hv, Option.map_eq_some_iff.2 ⟨w, hw, ho⟩⟩

end Number

instance : OrderedScalar Number where
  Value := Extended
  order := inferInstance
  value? := Number.value?
  same_iff {x y} := by
    change x.same y = true ↔ _
    rw [Number.same_eq, beq_iff_eq, Number.compare?_eq_some]
    simp only [compare_eq_iff_eq]
    constructor
    · rintro ⟨v, w, hv, hw, rfl⟩
      exact ⟨v, hv, hw⟩
    · rintro ⟨v, hv, hw⟩
      exact ⟨v, v, hv, hw, rfl⟩
  lt_iff {x y} := by
    change x.lt y = true ↔ _
    rw [Number.lt_eq, beq_iff_eq, Number.compare?_eq_some]
    simp only [compare_lt_iff_lt]
  le_iff {x y} := by
    change (x.lt y || x.same y) = true ↔ _
    rw [Number.lt_eq, Number.same_eq, Bool.or_eq_true, beq_iff_eq, beq_iff_eq,
      Number.compare?_eq_some, Number.compare?_eq_some]
    simp only [compare_lt_iff_lt, compare_eq_iff_eq, le_iff_lt_or_eq]
    constructor
    · rintro (⟨v, w, hv, hw, h⟩ | ⟨v, w, hv, hw, h⟩)
      · exact ⟨v, w, hv, hw, Or.inl h⟩
      · exact ⟨v, w, hv, hw, Or.inr h⟩
    · rintro ⟨v, w, hv, hw, h | h⟩
      · exact Or.inl ⟨v, w, hv, hw, h⟩
      · exact Or.inr ⟨v, w, hv, hw, h⟩

end Categorial
