import Mathlib
import Categorial.Decimal.Binary

/-!
The value of a floating-point value: a rational number or one of two infinities. A finite value
other than zero has one form with a significand of at most 53 bits, which has all of them unless the
exponent is the least one; among such forms, a greater exponent is a greater value. Main statement:
floating-point values are compared as the numbers that their parts stand for.
-/

namespace Categorial

open Float.Model

/-- Rational numbers with two infinities. -/
abbrev Extended := WithBot (WithTop ℚ)

/-- Numbers that are ordered alike compare alike. -/
theorem compare_congr {α β : Type} [LinearOrder α] [LinearOrder β] {a b : α} {c d : β}
    (hlt : a < b ↔ c < d) (heq : a = b ↔ c = d) : compare a b = compare c d := by
  rcases lt_trichotomy a b with h | h | h
  · rw [compare_lt_iff_lt.2 h, compare_lt_iff_lt.2 (hlt.1 h)]
  · rw [compare_eq_iff_eq.2 h, compare_eq_iff_eq.2 (heq.1 h)]
  · have hgt : d < c := by
      refine lt_of_le_of_ne (not_lt.1 fun hcd => h.not_gt (hlt.2 hcd)) ?_
      intro hdc
      exact h.ne' (heq.2 hdc.symm)
    rw [compare_gt_iff_gt.2 h, compare_gt_iff_gt.2 hgt]

theorem swap_compare_neg (a b : ℚ) : (compare a b).swap = compare (-a) (-b) := by
  rcases lt_trichotomy a b with h | rfl | h
  · rw [compare_lt_iff_lt.2 h, compare_gt_iff_gt.2 (neg_lt_neg h)]
    rfl
  · rw [compare_eq_iff_eq.2 rfl, compare_eq_iff_eq.2 rfl]
    rfl
  · rw [compare_gt_iff_gt.2 h, compare_lt_iff_lt.2 (neg_lt_neg h)]
    rfl

/-- A rational number among those with two infinities. -/
def Extended.ofRat (r : ℚ) : Extended := ((r : WithTop ℚ) : Extended)

theorem Extended.ofRat_lt_ofRat {r r' : ℚ} : ofRat r < ofRat r' ↔ r < r' :=
  WithBot.coe_lt_coe.trans WithTop.coe_lt_coe

theorem Extended.ofRat_inj {r r' : ℚ} : ofRat r = ofRat r' ↔ r = r' :=
  WithBot.coe_inj.trans WithTop.coe_inj

theorem Extended.bot_lt_ofRat (r : ℚ) : ⊥ < ofRat r := WithBot.bot_lt_coe _

theorem Extended.ofRat_lt_top (r : ℚ) : ofRat r < ((⊤ : WithTop ℚ) : Extended) :=
  WithBot.coe_lt_coe.2 (WithTop.coe_lt_top r)

theorem Extended.compare_ofRat (r r' : ℚ) : compare (ofRat r) (ofRat r') = compare r r' :=
  compare_congr ofRat_lt_ofRat ofRat_inj

namespace Decimal

/-- What `m * 2 ^ q` is with a sign. -/
def signed (negative : Bool) (m : Nat) (q : Int) : ℚ :=
  if negative then -(m * 2 ^ q) else m * 2 ^ q

theorem signed_zero (negative : Bool) (q : Int) : signed negative 0 q = 0 := by
  simp [signed]

theorem signed_pos {m : Nat} (h : m ≠ 0) (q : Int) : 0 < signed false m q := by
  have hm : (0 : ℚ) < m := by exact_mod_cast Nat.pos_of_ne_zero h
  exact mul_pos hm (zpow_pos (by norm_num) q)

theorem signed_neg {m : Nat} (h : m ≠ 0) (q : Int) : signed true m q < 0 :=
  neg_lt_zero.2 (signed_pos h q)

/-- What the parts of a floating-point value stand for. -/
def Parts.value? : Parts → Option Extended
  | nan => none
  | infinite negative => some (if negative then ⊥ else ((⊤ : WithTop ℚ) : Extended))
  | finite negative m q _ => some (.ofRat (signed negative m q))

/-- The sign of a value. -/
def floatSign (negative : Bool) : UnpackedFloat.Sign := if negative then .negative else .positive

/-- The parts of a floating-point value as an unpacked one, which has a zero of its own. -/
def Parts.unpacked : Parts → UnpackedFloat
  | nan => .notANumber
  | infinite negative => .infinity (floatSign negative)
  | finite negative m q _ =>
    if h : m = 0 then .zero (floatSign negative)
    else .finite (floatSign negative) m q (Nat.pos_of_ne_zero h)

/-- Whether the significand has all of its bits, or the exponent is the least one. -/
def Parts.Canonical : Parts → Prop
  | finite _ m q _ => m < 2 ^ 53 ∧ -1074 ≤ q ∧ (2 ^ 52 ≤ m ∨ q = -1074)
  | _ => True

section Unpack

variable (b : BitVec Format.binary64.numBits)

theorem toNat_unpackMantissa :
    (UnpackedFloat.unpackMantissa b).toNat = b.toNat % 2 ^ 52 := by
  simp [UnpackedFloat.unpackMantissa]

theorem toNat_unpackExponent :
    (UnpackedFloat.unpackExponent b).toNat = b.toNat / 2 ^ 52 % 2 ^ 11 := by
  simp [UnpackedFloat.unpackExponent, Nat.shiftRight_eq_div_pow]

theorem toNat_unpackSign : (UnpackedFloat.unpackSign b).toNat = b.toNat / 2 ^ 63 := by
  have hb : b.toNat < 2 ^ 64 := b.isLt
  simp [UnpackedFloat.unpackSign, Nat.shiftRight_eq_div_pow]
  omega

theorem unpackExponent_eq_ones :
    UnpackedFloat.unpackExponent b = -1#_ ↔ b.toNat / 2 ^ 52 % 2 ^ 11 = 2 ^ 11 - 1 := by
  rw [← BitVec.toNat_inj, toNat_unpackExponent]
  simp

theorem unpackExponent_eq_zero :
    UnpackedFloat.unpackExponent b = 0#_ ↔ b.toNat / 2 ^ 52 % 2 ^ 11 = 0 := by
  rw [← BitVec.toNat_inj, toNat_unpackExponent]
  simp

theorem unpackMantissa_eq_zero :
    UnpackedFloat.unpackMantissa b = 0#_ ↔ b.toNat % 2 ^ 52 = 0 := by
  rw [← BitVec.toNat_inj, toNat_unpackMantissa]
  simp

theorem toNat_significand :
    (1#1 ++ UnpackedFloat.unpackMantissa b).toNat = 2 ^ 52 + b.toNat % 2 ^ 52 := by
  have hlt : b.toNat % 2 ^ 52 < 2 ^ 52 := Nat.mod_lt _ (by decide)
  rw [BitVec.toNat_append, toNat_unpackMantissa, ← Nat.shiftLeft_add_eq_or_of_lt hlt,
    Nat.shiftLeft_eq]
  rfl

theorem ofBitVec_unpackSign : UnpackedFloat.Sign.ofBitVec (UnpackedFloat.unpackSign b) =
    floatSign (b.toNat / 2 ^ 63 == 1) := by
  have hb : b.toNat < 2 ^ 64 := b.isLt
  have hzero : UnpackedFloat.unpackSign b = 0#1 ↔ b.toNat / 2 ^ 63 = 0 := by
    rw [← BitVec.toNat_inj, toNat_unpackSign]
    rfl
  by_cases hsign : b.toNat / 2 ^ 63 = 1
  · have hne : ¬ UnpackedFloat.unpackSign b = 0#1 := fun h => by
      rw [hzero.1 h] at hsign
      exact absurd hsign (by decide)
    rw [UnpackedFloat.Sign.ofBitVec, if_neg hne, hsign]
    rfl
  · have heq : UnpackedFloat.unpackSign b = 0#1 := hzero.2 (by omega)
    rw [UnpackedFloat.Sign.ofBitVec, if_pos heq, beq_false_of_ne hsign]
    rfl

end Unpack

/-- Taking a floating-point value apart is unpacking it. -/
theorem unpack_eq (x : Float) : x.toModel.unpack = (parts x).unpacked := by
  have hbits : x.toBits.toNat = x.toModel.toBits.toBitVec.toNat := rfl
  rw [parts, Float.Model.unpack, hbits]
  generalize x.toModel.toBits.toBitVec = b
  have hsign := ofBitVec_unpackSign b
  by_cases hones : b.toNat / 2 ^ 52 % 2 ^ 11 = 2 ^ 11 - 1
  · rw [if_pos hones, UnpackedFloat.unpack, if_pos ((unpackExponent_eq_ones b).2 hones)]
    by_cases hfraction : b.toNat % 2 ^ 52 = 0
    · rw [if_pos hfraction, if_pos ((unpackMantissa_eq_zero b).2 hfraction), hsign]
      rfl
    · rw [if_neg hfraction, if_neg (mt (unpackMantissa_eq_zero b).1 hfraction)]
      rfl
  · rw [if_neg hones, UnpackedFloat.unpack, if_neg (mt (unpackExponent_eq_ones b).1 hones)]
    by_cases hzero : b.toNat / 2 ^ 52 % 2 ^ 11 = 0
    · rw [if_pos hzero, if_pos ((unpackExponent_eq_zero b).2 hzero), Parts.unpacked]
      by_cases hfraction : b.toNat % 2 ^ 52 = 0
      · rw [dif_pos ((unpackMantissa_eq_zero b).2 hfraction), dif_pos hfraction, hsign]
      · rw [dif_neg (mt (unpackMantissa_eq_zero b).1 hfraction), dif_neg hfraction]
        have hexponent := toNat_unpackExponent b
        rw [hzero] at hexponent
        congr 1
        rw [hexponent]
        rfl
    · rw [if_neg hzero, if_neg (mt (unpackExponent_eq_zero b).1 hzero), Parts.unpacked,
        dif_neg (by omega)]
      congr 1
      · exact toNat_significand b
      · rw [toNat_unpackExponent]
        rfl

/-- The parts of a floating-point value have the one form that it has. -/
theorem canonical_parts (x : Float) : (parts x).Canonical := by
  have hfraction : x.toBits.toNat % 2 ^ 52 < 2 ^ 52 := Nat.mod_lt _ (by decide)
  rw [parts]
  split
  · split <;> trivial
  · split
    · exact ⟨by omega, le_rfl, Or.inr rfl⟩
    · refine ⟨by omega, ?_, Or.inl (Nat.le_add_right _ _)⟩
      omega

/-- Of two forms with positive significands, the one with the greater exponent is greater. -/
theorem lt_of_exponent_lt {m m' : Nat} {q q' : Int} (hm : m < 2 ^ 53)
    (hm' : 2 ^ 52 ≤ m' ∨ q' = -1074) (hq : -1074 ≤ q) (h : q < q') :
    (m * 2 ^ q : ℚ) < m' * 2 ^ q' := by
  have hfull : 2 ^ 52 ≤ m' := hm'.resolve_right (by omega)
  have hm : (m : ℚ) < 2 ^ 53 := by exact_mod_cast hm
  have hfull : (2 : ℚ) ^ 52 ≤ m' := by exact_mod_cast hfull
  have hstep : (2 : ℚ) ^ (q + 1) ≤ 2 ^ q' := zpow_le_zpow_right₀ (by norm_num) (by omega)
  have hpos : (0 : ℚ) < 2 ^ q := by positivity
  calc (m : ℚ) * 2 ^ q < 2 ^ 53 * 2 ^ q := mul_lt_mul_of_pos_right hm hpos
    _ = 2 ^ 52 * 2 ^ (q + 1) := by rw [zpow_add_one₀ (by norm_num)]; ring
    _ ≤ m' * 2 ^ q' := mul_le_mul hfull hstep (by positivity) (by positivity)

/-- Forms are compared by their exponents first and then by their significands. -/
theorem compare_forms {m m' : Nat} {q q' : Int} (hm : m < 2 ^ 53) (hm' : m' < 2 ^ 53)
    (hfull : 2 ^ 52 ≤ m ∨ q = -1074) (hfull' : 2 ^ 52 ≤ m' ∨ q' = -1074) (hq : -1074 ≤ q)
    (hq' : -1074 ≤ q') :
    (compare q q').then (compare m m') = compare (m * 2 ^ q : ℚ) (m' * 2 ^ q') := by
  rcases lt_trichotomy q q' with h | rfl | h
  · rw [compare_lt_iff_lt.2 h, compare_lt_iff_lt.2 (lt_of_exponent_lt hm hfull' hq h)]
    rfl
  · have hpos : (0 : ℚ) < 2 ^ q := by positivity
    rw [compare_eq_iff_eq.2 rfl]
    rcases lt_trichotomy m m' with h | rfl | h
    · have hlt : (m * 2 ^ q : ℚ) < m' * 2 ^ q := mul_lt_mul_of_pos_right (by exact_mod_cast h) hpos
      rw [compare_lt_iff_lt.2 h, compare_lt_iff_lt.2 hlt]
      rfl
    · rw [compare_eq_iff_eq.2 rfl, compare_eq_iff_eq.2 rfl]
      rfl
    · have hlt : (m' * 2 ^ q : ℚ) < m * 2 ^ q := mul_lt_mul_of_pos_right (by exact_mod_cast h) hpos
      rw [compare_gt_iff_gt.2 h, compare_gt_iff_gt.2 hlt]
      rfl
  · rw [compare_gt_iff_gt.2 h, compare_gt_iff_gt.2 (lt_of_exponent_lt hm' hfull hq' h)]
    rfl

/-- Finite parts are compared as what they stand for. -/
theorem compare_finite {n n' : Bool} {m m' : Nat} {q q' : Int} {w w' : Bool}
    (h : (Parts.finite n m q w).Canonical) (h' : (Parts.finite n' m' q' w').Canonical) :
    (Parts.finite n m q w).unpacked.compare (Parts.finite n' m' q' w').unpacked =
      some (compare (signed n m q) (signed n' m' q')) := by
  rw [Parts.unpacked, Parts.unpacked]
  by_cases hm : m = 0
  · subst hm
    rw [dif_pos rfl, signed_zero]
    by_cases hm' : m' = 0
    · subst hm'
      rw [dif_pos rfl, signed_zero, compare_eq_iff_eq.2 rfl]
      rfl
    · rw [dif_neg hm']
      cases n' with
      | false =>
        rw [compare_lt_iff_lt.2 (signed_pos hm' q')]
        rfl
      | true =>
        rw [compare_gt_iff_gt.2 (signed_neg hm' q')]
        rfl
  · rw [dif_neg hm]
    by_cases hm' : m' = 0
    · subst hm'
      rw [dif_pos rfl, signed_zero]
      cases n with
      | false =>
        rw [compare_gt_iff_gt.2 (signed_pos hm q)]
        rfl
      | true =>
        rw [compare_lt_iff_lt.2 (signed_neg hm q)]
        rfl
    · rw [dif_neg hm']
      have hforms := compare_forms h.1 h'.1 h.2.2 h'.2.2 h.2.1 h'.2.1
      cases n with
      | false =>
        cases n' with
        | false => exact congrArg some hforms
        | true =>
          rw [compare_gt_iff_gt.2 ((signed_neg hm' q').trans (signed_pos hm q))]
          rfl
      | true =>
        cases n' with
        | false =>
          rw [compare_lt_iff_lt.2 ((signed_neg hm q).trans (signed_pos hm' q'))]
          rfl
        | true =>
          refine congrArg some ?_
          rw [hforms]
          exact swap_compare_neg _ _

theorem unpacked_finite (n : Bool) (m : Nat) (q : Int) (w : Bool) :
    (Parts.finite n m q w).unpacked = .zero (floatSign n) ∨
      ∃ s hm, (Parts.finite n m q w).unpacked = .finite s m q hm := by
  rw [Parts.unpacked]
  split
  · exact Or.inl rfl
  · rename_i hm
    exact Or.inr ⟨_, Nat.pos_of_ne_zero hm, rfl⟩

/-- The parts of floating-point values are compared as what they stand for. -/
theorem compare_unpacked {p p' : Parts} (h : p.Canonical) (h' : p'.Canonical) :
    p.unpacked.compare p'.unpacked =
      p.value?.bind fun v => p'.value?.map fun v' => compare v v' := by
  cases p with
  | nan => cases p' <;> rfl
  | infinite n =>
    cases p' with
    | nan => cases n <;> rfl
    | infinite n' =>
      have hlt := compare_lt_iff_lt.2 (WithBot.bot_lt_coe (⊤ : WithTop ℚ))
      have hgt := compare_gt_iff_gt.2 (WithBot.bot_lt_coe (⊤ : WithTop ℚ))
      have heq : ∀ v : Extended, compare v v = .eq := fun v => compare_eq_iff_eq.2 rfl
      cases n <;> cases n'
      · exact congrArg some (heq _).symm
      · exact congrArg some hgt.symm
      · exact congrArg some hlt.symm
      · exact congrArg some (heq _).symm
    | finite n' m' q' w' =>
      have hunpacked := unpacked_finite n' m' q' w'
      cases n with
      | false =>
        refine .trans ?_ (congrArg some (compare_gt_iff_gt.2 (Extended.ofRat_lt_top _)).symm)
        rcases hunpacked with heq | ⟨s, hm, heq⟩ <;> rw [heq] <;> rfl
      | true =>
        refine .trans ?_ (congrArg some (compare_lt_iff_lt.2 (Extended.bot_lt_ofRat _)).symm)
        rcases hunpacked with heq | ⟨s, hm, heq⟩ <;> rw [heq] <;> rfl
  | finite n m q w =>
    cases p' with
    | nan =>
      rcases unpacked_finite n m q w with heq | ⟨s, hm, heq⟩ <;> rw [heq] <;> rfl
    | infinite n' =>
      have hunpacked := unpacked_finite n m q w
      cases n' with
      | false =>
        refine .trans ?_ (congrArg some (compare_lt_iff_lt.2 (Extended.ofRat_lt_top _)).symm)
        rcases hunpacked with heq | ⟨s, hm, heq⟩ <;> rw [heq] <;> cases n <;> rfl
      | true =>
        refine .trans ?_ (congrArg some (compare_gt_iff_gt.2 (Extended.bot_lt_ofRat _)).symm)
        rcases hunpacked with heq | ⟨s, hm, heq⟩ <;> rw [heq] <;> cases n <;> rfl
    | finite n' m' q' w' =>
      rw [compare_finite h h', ← Extended.compare_ofRat]
      rfl

end Decimal

end Categorial
