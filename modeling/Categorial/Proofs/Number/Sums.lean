import Mathlib
import Categorial.Proofs.Decimal.Parts
import Categorial.Scalar

/-!
Sums of two scores. Sums are added up from zero, and zero and a negative zero make zero; but for
that, zero changes no floating-point value. The value nearest to an integer is no negative zero.
Main statement: the sum of two scores does not depend on their order, also if one of them is an
integer and the other one is not.
-/

namespace Categorial

open Float.Model UnpackedFloat

/-- Whether a floating-point value is zero with a negative sign. -/
def NegativeZero (x : Float) : Prop := x.toModel.unpack = .zero .negative

theorem add_unpacked_comm (spec : Format) (x y : UnpackedFloat) :
    UnpackedFloat.add spec x y = UnpackedFloat.add spec y x := by
  cases x with
  | infinity s =>
    cases y with
    | infinity s' => cases s <;> cases s' <;> rfl
    | _ => rfl
  | notANumber => cases y <;> rfl
  | zero s =>
    cases y with
    | zero s' => cases s <;> cases s' <;> rfl
    | _ => rfl
  | finite s m e =>
    cases y with
    | finite s' m' e' =>
      simp only [UnpackedFloat.add, min_comm e e']
      rw [Int.add_comm]
    | _ => rfl

theorem float_add_comm (x y : Float) : x + y = y + x :=
  congrArg (fun u => Float.ofModel (Float.Model.pack u)) (add_unpacked_comm _ _ _)

/-- A sum is one of its parts if unpacked sums are. -/
theorem float_add_eq {x y : Float} (h : UnpackedFloat.add .binary64 x.toModel.unpack
    y.toModel.unpack = x.toModel.unpack) : x + y = x :=
  (congrArg (fun u => Float.ofModel (Float.Model.pack u)) h).trans (Float.ofBits_toBits x)

theorem add_zero_unpacked {u : UnpackedFloat} (h : u ≠ .zero .negative) (s : Sign) :
    UnpackedFloat.add .binary64 u (.zero s) = u := by
  cases u with
  | zero s' =>
    cases s' with
    | positive => cases s <;> rfl
    | negative => exact absurd rfl h
  | _ => rfl

theorem float_zero_add {x : Float} (h : ¬NegativeZero x) : 0.0 + x = x := by
  rw [float_add_comm]
  exact float_add_eq (add_zero_unpacked h .positive)

theorem float_add_negativeZero {x y : Float} (hx : ¬NegativeZero x) (hy : NegativeZero y) :
    x + y = x := by
  refine float_add_eq ?_
  rw [hy]
  exact add_zero_unpacked hx .negative

theorem not_negativeZero_zero : ¬NegativeZero 0.0 := by
  intro h
  have hzero : (0.0 : Float).toModel.unpack = .zero .positive := rfl
  rw [NegativeZero, hzero] at h
  cases h

/-- Two values may be added to zero in any order. -/
theorem float_zero_add_right_comm (x y : Float) : 0.0 + x + y = 0.0 + y + x := by
  by_cases hx : NegativeZero x
  · rw [float_add_negativeZero not_negativeZero_zero hx]
    by_cases hy : NegativeZero y
    · rw [float_add_negativeZero not_negativeZero_zero hy,
        float_add_negativeZero not_negativeZero_zero hx]
    · rw [float_zero_add hy, float_add_negativeZero hy hx]
  · rw [float_zero_add hx]
    by_cases hy : NegativeZero y
    · rw [float_add_negativeZero not_negativeZero_zero hy, float_zero_add hx,
        float_add_negativeZero hx hy]
    · rw [float_zero_add hy, float_add_comm]

namespace Decimal

/-- Bits that do not stand for an infinite or an undefined value are those of their value. -/
theorem toBits_ofBits {n : Nat} (h : n < (2 ^ 11 - 1) * 2 ^ 52) :
    (Float.ofBits n.toUInt64).toBits.toNat = n := by
  have hword : n.toUInt64.toNat = n := by
    rw [Nat.toUInt64_eq, UInt64.toNat_ofNat']
    omega
  have hnat : n.toUInt64.toBitVec.toNat = n := hword
  have hexponent : @unpackExponent .binary64 n.toUInt64.toBitVec ≠ -1#_ := by
    rw [Ne, unpackExponent_eq_ones n.toUInt64.toBitVec, hnat]
    omega
  have hpack : UnpackedFloat.pack .binary64 (UnpackedFloat.unpack .binary64 n.toUInt64.toBitVec) =
      n.toUInt64.toBitVec := by
    rw [pack_unpack, if_neg]
    rw [isNaNBits, decide_eq_true_eq]
    exact fun h => hexponent h.1
  exact (congrArg BitVec.toNat hpack).trans hnat

/-- Whether an unpacked value is positive, and infinite or with all bits of its significand. -/
def Full (u : UnpackedFloat) : Prop :=
  u = .infinity .positive ∨ ∃ m q hm, u = .finite .positive m q hm ∧ 2 ^ 52 ≤ m ∧ m < 2 ^ 53 ∧
    -1074 ≤ q

theorem full_ofBits {n : Nat} (hlow : 2 ^ 52 ≤ n) (hhigh : n < (2 ^ 11 - 1) * 2 ^ 52) :
    Full (Float.ofBits n.toUInt64).toModel.unpack := by
  have hsign : (n / 2 ^ 63 == 1) = false := beq_false_of_ne (by omega)
  rw [unpack_eq, parts, toBits_ofBits hhigh, if_neg (by omega), if_neg (by omega), hsign,
    Parts.unpacked, dif_neg (by omega)]
  exact Or.inr ⟨_, _, _, rfl, by omega, by omega, by omega⟩

theorem full_ofSignificand {m : Nat} {q : Int} (hq : leastExponent < q) :
    Full (ofSignificand m q).toModel.unpack := by
  rw [ofSignificand]
  split
  · exact Or.inl rfl
  · rename_i hbits
    have hmany : 1 ≤ (q - leastExponent).toNat := by omega
    exact full_ofBits (by omega) (by omega)

theorem floorLog_one {n : Nat} (hn : n ≠ 0) : floorLog n 1 = n.log2 := by
  have hone : Nat.log2 1 = 0 := by decide
  rw [floorLog, hone, if_pos]
  · simp
  · simpa using Nat.log2_self_le hn

theorem full_nearestQuotient {n : Nat} (hn : n ≠ 0) :
    Full (nearestQuotient n 1).toModel.unpack := by
  obtain ⟨m, hm⟩ : ∃ m,
      nearestQuotient n 1 = ofSignificand m (max (floorLog n 1 - 52) leastExponent) :=
    ⟨_, by rw [nearestQuotient, if_neg hn]⟩
  have hleast : leastExponent = -1074 := rfl
  rw [hm, floorLog_one hn]
  refine full_ofSignificand ?_
  omega

/-- The packed form of a value with all bits of its significand is not that of zero. -/
theorem pack_ne_packedZero {s s' : Sign} {m : Nat} {q : Int} (hm : 0 < m) (hlow : 2 ^ 52 ≤ m)
    (hhigh : m < 2 ^ 53) (hq : -1074 ≤ q) :
    UnpackedFloat.pack .binary64 (.finite s m q hm) ≠ packedZero .binary64 s' := by
  have hlog : m.log2 = 52 := (Nat.log2_eq_iff (by omega)).2 ⟨hlow, hhigh⟩
  have hbias : ((Format.binary64.exponentBias : Nat) : Int) = 1023 := rfl
  have hfull : 52 + 1 = Format.binary64.mantissaBits := rfl
  intro h
  have hexponent := congrArg unpackExponent h
  rw [packedZero, unpackExponent_packComponents, UnpackedFloat.pack] at hexponent
  simp only [hlog, hbias, if_pos hfull] at hexponent
  split at hexponent
  · rw [packedInfinity, unpackExponent_packComponents] at hexponent
    exact absurd hexponent (by decide)
  · rw [unpackExponent_packComponents] at hexponent
    have hnat := congrArg BitVec.toNat hexponent
    simp at hnat
    omega

theorem Full.not_negativeZero {x : Float} (h : Full x.toModel.unpack) : ¬NegativeZero x := by
  intro hzero
  rw [NegativeZero] at hzero
  rcases h with h | ⟨m, q, hm, h, -⟩ <;> rw [h] at hzero <;> cases hzero

theorem Full.not_negativeZero_neg {x : Float} (h : Full x.toModel.unpack) :
    ¬NegativeZero (-x) := by
  intro hzero
  have hpack : UnpackedFloat.pack .binary64 x.toModel.unpack.neg = packedZero .binary64 .negative :=
    (unpack_eq_zero_iff_of_valid (-x).toModel.valid).1 hzero
  rcases h with h | ⟨m, q, hm, h, hlow, hhigh, hq⟩
  · rw [h] at hpack
    exact absurd hpack (by decide)
  · rw [h] at hpack
    exact pack_ne_packedZero hm hlow hhigh hq hpack

end Decimal

namespace Number

/-- What two numbers add up to. -/
theorem plus_eq (x y : Number) : Scalar.plus x y =
    match x.worth, y.worth with
    | .inl n, .inl k => .ok (int (n + k))
    | .inl n, .inr b => if fits n then .ok (real (nearest n + b)) else .error .tooLarge
    | .inr a, .inl k => if fits k then .ok (real (a + nearest k)) else .error .tooLarge
    | .inr a, .inr b => .ok (real (a + b)) := by
  have hsum : x + y = combine (· + ·) (· + ·) x y := rfl
  have hcombinable : Scalar.combinable x y = combinable x y := rfl
  rw [Scalar.plus, Scalar.checked, hsum, hcombinable, combine, combinable, hasFloat, hasFloat,
    approx, approx]
  cases x.worth <;> cases y.worth <;> simp

theorem not_negativeZero_nearest (n : Int) : ¬NegativeZero (nearest n) := by
  by_cases hn : n = 0
  · subst hn
    exact not_negativeZero_zero
  · have hfull := Decimal.full_nearestQuotient (Int.natAbs_ne_zero.2 hn)
    rw [nearest]
    split
    · exact hfull.not_negativeZero_neg
    · exact hfull.not_negativeZero

end Number

namespace Scalar

/-- Whether the sum of two scores does not depend on their order. -/
def Commutes (K : Type) [Scalar K] : Prop :=
  ∀ x y : K, total [.ok x, .ok y] = total [.ok y, .ok x]

theorem total_pair {K : Type} [Scalar K] (x y : K) :
    total [.ok x, .ok y] = (plus 0 x).bind fun acc => plus acc y := by
  cases hx : plus 0 x with
  | error fault => simp [total, bind, Except.bind, hx]
  | ok acc => cases hy : plus acc y <;> simp [total, bind, Except.bind, hx, hy, pure, Except.pure]

theorem zero_plus_int {x : Number} {n : Int} (h : x.worth = .inl n) :
    plus 0 x = .ok (.int n) := by
  have hzero : (0 : Number).worth = .inl 0 := rfl
  rw [Number.plus_eq, hzero, h]
  simp

theorem zero_plus_real {x : Number} {a : Float} (h : x.worth = .inr a) :
    plus 0 x = .ok (.real (0.0 + a)) := by
  have hzero : (0 : Number).worth = .inl 0 := rfl
  rw [Number.plus_eq, hzero, h]
  rfl

theorem total_int_real {x y : Number} {n : Int} {b : Float} (hx : x.worth = .inl n)
    (hy : y.worth = .inr b) : total [.ok x, .ok y] = total [.ok y, .ok x] := by
  have hint : (Number.int n).worth = .inl n := rfl
  have hreal : (Number.real (0.0 + b)).worth = .inr (0.0 + b) := rfl
  have hnearest := float_zero_add (Number.not_negativeZero_nearest n)
  have hcomm : Number.nearest n + b = 0.0 + b + Number.nearest n := by
    rw [← float_zero_add_right_comm, hnearest]
  rw [total_pair, total_pair, zero_plus_int hx, zero_plus_real hy, Except.bind, Except.bind,
    Number.plus_eq, Number.plus_eq, hint, hreal, hx, hy]
  dsimp only
  rw [hcomm]

/-- Two numbers are added up to the same in any order. -/
theorem commutes_number : Commutes Number := by
  intro x y
  cases hx : x.worth with
  | inl n =>
    cases hy : y.worth with
    | inl k =>
      rw [total_pair, total_pair, zero_plus_int hx, zero_plus_int hy, Except.bind, Except.bind,
        Number.plus_eq, Number.plus_eq, hx, hy]
      exact congrArg (fun n => Except.ok (Number.int n)) (Int.add_comm n k)
    | inr b => exact total_int_real hx hy
  | inr a =>
    cases hy : y.worth with
    | inl k => exact (total_int_real hy hx).symm
    | inr b =>
      rw [total_pair, total_pair, zero_plus_real hx, zero_plus_real hy, Except.bind, Except.bind,
        Number.plus_eq, Number.plus_eq, hx, hy]
      exact congrArg (fun a => Except.ok (Number.real a)) (float_zero_add_right_comm a b)

end Scalar

end Categorial
