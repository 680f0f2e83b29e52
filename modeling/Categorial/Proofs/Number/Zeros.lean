import Categorial.Proofs.Number.Order
import Categorial.Proofs.Number.Sums
import Categorial.Proofs.Scalar.Tolerant

/-!
Numbers up to the sign of a zero. A floating-point value that is added to zero stays as it is, or it
was a negative zero and becomes zero. Main statement: sums and products of numbers that are alike
but for the sign of a zero are so as well, and numbers that are alike stand for the same, so numbers
are scores that sums with zero may replace.
-/

namespace Categorial

open Float.Model UnpackedFloat Decimal

/-- Whether two unpacked values are one, or zeros of any signs. -/
inductive AlikeUnpacked : UnpackedFloat → UnpackedFloat → Prop
  | refl (u : UnpackedFloat) : AlikeUnpacked u u
  | zeros (s s' : Sign) : AlikeUnpacked (.zero s) (.zero s')

namespace AlikeUnpacked

variable {u u' v v' w : UnpackedFloat}

theorem trans (huv : AlikeUnpacked u v) (hvw : AlikeUnpacked v w) : AlikeUnpacked u w := by
  cases huv with
  | refl => exact hvw
  | zeros s t =>
    cases hvw with
    | refl => exact .zeros s t
    | zeros _ t' => exact .zeros s t'

/-- An operation that does not tell the zeros on either side gives what is alike. -/
theorem operate {f : UnpackedFloat → UnpackedFloat → UnpackedFloat}
    (hleft : ∀ s s' v, AlikeUnpacked (f (.zero s) v) (f (.zero s') v))
    (hright : ∀ s s' u, AlikeUnpacked (f u (.zero s)) (f u (.zero s')))
    (hu : AlikeUnpacked u u') (hv : AlikeUnpacked v v') : AlikeUnpacked (f u v) (f u' v') := by
  have hfirst : AlikeUnpacked (f u v) (f u' v) := by
    cases hu with
    | refl => exact .refl _
    | zeros s s' => exact hleft s s' v
  have hsecond : AlikeUnpacked (f u' v) (f u' v') := by
    cases hv with
    | refl => exact .refl _
    | zeros s s' => exact hright s s' u'
  exact hfirst.trans hsecond

theorem add (hu : AlikeUnpacked u u') (hv : AlikeUnpacked v v') :
    AlikeUnpacked (UnpackedFloat.add .binary64 u v) (UnpackedFloat.add .binary64 u' v') := by
  refine operate (fun s s' v => ?_) (fun s s' u => ?_) hu hv
  · cases v with
    | zero t => cases s <;> cases s' <;> cases t <;> exact .zeros _ _
    | _ => exact .refl _
  · cases u with
    | zero t => cases s <;> cases s' <;> cases t <;> exact .zeros _ _
    | _ => exact .refl _

theorem mul (hu : AlikeUnpacked u u') (hv : AlikeUnpacked v v') :
    AlikeUnpacked (UnpackedFloat.mul .binary64 u v) (UnpackedFloat.mul .binary64 u' v') := by
  refine operate (fun s s' v => ?_) (fun s s' u => ?_) hu hv
  · cases v with
    | infinity t => exact .refl _
    | notANumber => exact .refl _
    | zero t => exact .zeros _ _
    | finite t m e hm => exact .zeros _ _
  · cases u with
    | infinity t => exact .refl _
    | notANumber => exact .refl _
    | zero t => exact .zeros _ _
    | finite t m e hm => exact .zeros _ _

end AlikeUnpacked

/-- Whether two floating-point values are one, or zeros of any signs. -/
def AlikeFloats (x y : Float) : Prop := AlikeUnpacked x.toModel.unpack y.toModel.unpack

/-- Packing keeps values that are alike so. -/
theorem alikeFloats_pack {u v : UnpackedFloat} (h : AlikeUnpacked u v) :
    AlikeFloats (.ofModel (Float.Model.pack u)) (.ofModel (Float.Model.pack v)) := by
  have hzero : ∀ s, (Float.Model.pack (.zero s)).unpack = .zero s := by
    intro s
    cases s <;> rfl
  cases h with
  | refl => exact .refl _
  | zeros s s' =>
    rw [AlikeFloats, hzero, hzero]
    exact .zeros s s'

theorem AlikeFloats.add {x x' y y' : Float} (hx : AlikeFloats x x') (hy : AlikeFloats y y') :
    AlikeFloats (x + y) (x' + y') :=
  alikeFloats_pack (AlikeUnpacked.add hx hy)

theorem AlikeFloats.mul {x x' y y' : Float} (hx : AlikeFloats x x') (hy : AlikeFloats y y') :
    AlikeFloats (x * y) (x' * y') :=
  alikeFloats_pack (AlikeUnpacked.mul hx hy)

/-- A value is like its sum with zero. -/
theorem alikeFloats_zero_add (x : Float) : AlikeFloats (0.0 + x) x := by
  by_cases hx : NegativeZero x
  · have hzero : (0.0 : Float).toModel.unpack = .zero .positive := rfl
    rw [float_add_negativeZero not_negativeZero_zero hx, AlikeFloats, hzero, hx]
    exact .zeros _ _
  · rw [float_zero_add hx]
    exact .refl _

/-- What an unpacked value stands for. -/
def unpackedValue? : UnpackedFloat → Option Extended
  | .notANumber => none
  | .infinity .positive => some ((⊤ : WithTop ℚ) : Extended)
  | .infinity .negative => some ⊥
  | .zero _ => some (.ofRat 0)
  | .finite .positive m q _ => some (.ofRat (signed false m q))
  | .finite .negative m q _ => some (.ofRat (signed true m q))

theorem value?_eq_unpacked (p : Parts) : p.value? = unpackedValue? p.unpacked := by
  cases p with
  | nan => rfl
  | infinite n => cases n <;> rfl
  | finite n m q w =>
    rw [Parts.value?, Parts.unpacked]
    split
    · rename_i hm
      rw [hm, signed_zero]
      rfl
    · cases n <;> rfl

/-- Values that are alike stand for the same. -/
theorem AlikeFloats.value?_eq {x y : Float} (h : AlikeFloats x y) :
    (parts x).value? = (parts y).value? := by
  rw [AlikeFloats, unpack_eq, unpack_eq] at h
  rw [value?_eq_unpacked, value?_eq_unpacked]
  generalize (parts x).unpacked = u at h ⊢
  generalize (parts y).unpacked = v at h ⊢
  cases h <;> rfl

namespace Number

/-- Whether two numbers are one integer, or floating-point values that are alike. -/
inductive Alike (a b : Number) : Prop
  | exact {n : Int} (ha : a.worth = .inl n) (hb : b.worth = .inl n)
  | inexact {x y : Float} (ha : a.worth = .inr x) (hb : b.worth = .inr y) (h : AlikeFloats x y)

variable {a a' b b' : Number}

theorem alike_refl (a : Number) : Alike a a := by
  cases h : a.worth with
  | inl n => exact .exact h h
  | inr x => exact .inexact h h (.refl _)

theorem Alike.approx (h : Alike a a') : AlikeFloats a.approx a'.approx := by
  rw [Number.approx, Number.approx]
  cases h with
  | exact ha ha' => rw [ha, ha']; exact .refl _
  | inexact ha ha' h => rw [ha, ha']; exact h

/-- What numbers that are alike are combined to is alike. -/
theorem Alike.combine {f : Int → Int → Int} {g : Float → Float → Float} (ha : Alike a a')
    (hb : Alike b b')
    (hg : ∀ {x x' y y'}, AlikeFloats x x' → AlikeFloats y y' → AlikeFloats (g x y) (g x' y')) :
    Alike (Number.combine f g a b) (Number.combine f g a' b') := by
  have hfloat : Alike (.real (g a.approx b.approx)) (.real (g a'.approx b'.approx)) :=
    .inexact rfl rfl (hg ha.approx hb.approx)
  rw [Number.combine, Number.combine]
  cases ha with
  | exact hn hn' =>
    cases hb with
    | exact hk hk' =>
      rw [hn, hn', hk, hk']
      exact .exact rfl rfl
    | inexact hy hy' h =>
      rw [hn, hn', hy, hy']
      exact hfloat
  | inexact hx hx' h =>
    rw [hx, hx']
    exact hfloat

theorem alike_zero_add (a : Number) : Alike (0 + a) a := by
  cases h : a.worth with
  | inl n =>
    refine .exact (n := n) ?_ h
    change (Number.combine (· + ·) (· + ·) 0 a).worth = _
    rw [Number.combine, h]
    exact congrArg Sum.inl (Int.zero_add n)
  | inr x =>
    refine .inexact (x := 0.0 + x) ?_ h (alikeFloats_zero_add x)
    change (Number.combine (· + ·) (· + ·) 0 a).worth = _
    rw [Number.combine, h, Number.approx, Number.approx, h]
    rfl

theorem Alike.combinable_eq (ha : Alike a a') (hb : Alike b b') :
    Number.combinable a b = Number.combinable a' b' := by
  rw [Number.combinable, Number.combinable, hasFloat, hasFloat, hasFloat, hasFloat]
  cases ha with
  | exact hn hn' =>
    rw [hn, hn']
    cases hb with
    | exact hk hk' => rw [hk, hk']
    | inexact hy hy' h => rw [hy, hy']
  | inexact hx hx' h =>
    rw [hx, hx']
    cases hb with
    | exact hk hk' => rw [hk, hk']
    | inexact hy hy' h => rw [hy, hy']

theorem Alike.value?_eq (h : Alike a b) : a.value? = b.value? := by
  rw [Number.value?, Number.value?]
  cases h with
  | exact ha hb => rw [ha, hb]
  | inexact ha hb h =>
    rw [ha, hb]
    exact h.value?_eq

end Number

instance : TolerantScalar Number where
  Alike := Number.Alike
  refl := Number.alike_refl
  zero_add := Number.alike_zero_add
  add ha hb := ha.combine hb AlikeFloats.add
  mul ha hb := ha.combine hb AlikeFloats.mul
  combinable_eq := Number.Alike.combinable_eq
  value?_eq := Number.Alike.value?_eq

end Categorial
