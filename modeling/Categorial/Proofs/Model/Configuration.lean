import Mathlib.Algebra.Group.Int.Defs
import Categorial.Model.ScorerConfig
import Categorial.Proofs.Collection.Gather

/-!
Scorers that are made from parameters. The parameters are read one after the other, and the first
read that fails ends it. Main statement: a scorer comes out that has floating-point numbers and
scorers alone, or a fault that tells of the configuration, unless an integer is too large, a type or
a name refuses to be a key, or what stands in the place of the base is not such a scorer; and a
scorer of this kind scores every entry, as far as it leaves no score open and the powers exist.
-/

namespace Categorial

/-- The fault that a result is, if it is one. -/
def Fault.of {α : Type} : Except Fault α → Option Fault
  | .ok _ => none
  | .error fault => some fault

theorem Fault.of_eq_some {α : Type} {x : Except Fault α} {fault : Fault} :
    Fault.of x = some fault ↔ x = .error fault := by
  cases x <;> simp [Fault.of]

/-- A step after another one is a fault if the former is, or else if the latter is. -/
theorem Fault.of_bind {α β : Type} {x : Except Fault α} {next : α → Except Fault β}
    {rest : Option Fault} (h : ∀ a, Fault.of (next a) = rest) :
    Fault.of (x >>= next) = (Fault.of x).or rest := by
  cases x with
  | error fault => rfl
  | ok a => exact h a

namespace Scorer

/-- Whether a scorer has floating-point numbers and scorers alone, down to the innermost one, which
gives floating-point scores if it is of a class of its own. -/
def WellMade : Scorer → Prop
  | uniform value => ∃ x, value = .real x
  | length coefficient exponent => (∃ x, coefficient = .real x) ∧ ∃ x, exponent = .real x
  | scaled scale base => (∃ x, scale = .real x) ∧ base.WellMade
  | skipping _ cost base => (∃ x, cost = .real x) ∧ base.WellMade
  | custom scorer => ∀ e, ∃ x, scorer.score e = .ok (.real x)
  | abstract => True
  | misplaced _ => False

/-- The innermost scorer. -/
def innermost : Scorer → Scorer
  | scaled _ base => base.innermost
  | skipping _ _ base => base.innermost
  | s => s

/-- A parameter that is read when a scorer is made. -/
inductive Read where
  | type
  | number (key : String) (default : Option Number)
  | base

variable {parameters : Parameters} {resources : Resources} {r : Read} {fault : Fault}

/-- The type of a scorer among its parameters. -/
def typeOf (parameters : Parameters) : Parameter :=
  (parameters.lookup "type").getD (.thing (.value .none))

/-- What is read after the type, in this order; nothing if there is no scorer of this type. -/
def readsFor (scale : List Read) : Parameter → List Read
  | .thing (.value (.text "scorer.uniform")) => .number "value" none :: scale
  | .thing (.value (.text "scorer.scaled")) => [.number "scale" none, .base]
  | .thing (.value (.text "scorer.lex.length")) =>
    .number "coef" none :: .number "exp" (some (.real 1.0)) :: scale
  | .thing (.value (.text "scorer.lex.skipping")) => .number "cost" none :: .base :: scale
  | _ => []

/-- The parameters that are read, in this order. -/
def reads (parameters : Parameters) : List Read :=
  .type :: readsFor (if (parameters.lookup "scale").isSome then [.number "scale" none] else [])
    (typeOf parameters)

/-- How reading the type fails, if it does. -/
def typeFault? : Parameter → Option Fault
  | .scorer s => some (.unknownScorer s.text)
  | .thing t => match t.keyFault? with
    | some fault => some fault
    | none => if (readsFor [] (.thing t)).isEmpty then some (.unknownScorer t.text) else none

/-- How reading a parameter fails, if it does. -/
def Read.fault? (parameters : Parameters) (resources : Resources) : Read → Option Fault
  | type => typeFault? (typeOf parameters)
  | number key default => Fault.of (Scorer.number parameters key default)
  | base => Fault.of (scorerOf parameters "baseScorer" resources)

/-- A scale is read just if there is one. -/
theorem fault_maybeScaled (parameters : Parameters) (resources : Resources) (s : Scorer) :
    Fault.of (maybeScaled parameters s) =
      (if (parameters.lookup "scale").isSome then [Read.number "scale" none] else []).findSome?
        (Read.fault? parameters resources) := by
  rw [maybeScaled]
  split
  · refine Eq.trans (Fault.of_bind fun _ => rfl) ?_
    rw [Option.or_none, List.findSome?_singleton, Read.fault?]
  · rfl

theorem findSome?_cons_or (f : Read → Option Fault) (r : Read) (rest : List Read) :
    (r :: rest).findSome? f = (f r).or (rest.findSome? f) := by
  rw [List.findSome?_cons]
  cases f r <;> rfl

/-- Making a scorer fails as the first of its reads that fails. -/
theorem fault_create (parameters : Parameters) (resources : Resources) :
    Fault.of (create parameters resources) =
      (reads parameters).findSome? (Read.fault? parameters resources) := by
  rw [reads, findSome?_cons_or, Read.fault?, create, ← typeOf]
  cases typeOf parameters with
  | scorer s => rfl
  | thing t =>
    rw [typeFault?]
    cases hkey : t.keyFault? with
    | some fault => simp [hkey, Fault.of]
    | none =>
      simp only [hkey]
      split
      · refine Eq.trans (Fault.of_bind fun _ => fault_maybeScaled parameters resources _) ?_
        simp only [readsFor, findSome?_cons_or]
        rfl
      · refine Eq.trans (Fault.of_bind fun _ => Fault.of_bind fun _ => rfl) ?_
        simp only [readsFor, findSome?_cons_or]
        rfl
      · refine Eq.trans (Fault.of_bind fun _ => Fault.of_bind fun _ =>
          fault_maybeScaled parameters resources _) ?_
        simp only [readsFor, findSome?_cons_or]
        rfl
      · refine Eq.trans (Fault.of_bind fun _ => Fault.of_bind fun _ =>
          fault_maybeScaled parameters resources _) ?_
        simp only [readsFor, findSome?_cons_or]
        rfl
      · rename_i huniform hscaled hlength hskipping
        have hnone : ∀ scale, readsFor scale (.thing t) = [] := by
          intro scale
          rw [readsFor]
          · exact fun h => huniform (Parameter.thing.inj h)
          · exact fun h => hscaled (Parameter.thing.inj h)
          · exact fun h => hlength (Parameter.thing.inj h)
          · exact fun h => hskipping (Parameter.thing.inj h)
        rw [hnone, hnone]
        rfl

/-! How reads fail. -/

/-- Integers alone can be too large. -/
theorem toFloat_eq_tooLarge {t : Thing} :
    t.toFloat = .error .tooLarge ↔ ∃ n, t = .value (.int n) ∧ Number.fits n = false := by
  constructor
  · intro h
    cases t with
    | category c => cases h
    | value v =>
      cases v with
      | int n =>
        refine ⟨n, rfl, ?_⟩
        rw [Thing.toFloat, Value.toFloat, Number.ofInt?] at h
        split at h
        · cases h
        · rename_i hfits
          exact Bool.eq_false_iff.2 hfits
      | text s =>
        rw [Thing.toFloat, Value.toFloat] at h
        split at h <;> cases h
      | _ => cases h
  · rintro ⟨n, rfl, hfits⟩
    rw [Thing.toFloat, Value.toFloat, Number.ofInt?, hfits]
    rfl

/-- Whether a thing refuses to be a key with a fault that tells nothing of the configuration. -/
def Thing.Refuses (t : Thing) : Prop :=
  ∃ fault, t.keyFault? = some fault ∧ fault.kind ≠ .scorerConfiguration

/-- Whether a parameter makes its read fail with a fault that tells nothing of the configuration: a
type that refuses to be a key so, an integer that is too large for a floating-point value, or a name
of a resource that refuses to be a key so. -/
def Read.Spoilt (parameters : Parameters) (resources : Resources) : Read → Prop
  | type => ∃ t, typeOf parameters = .thing t ∧ t.Refuses
  | number key _ =>
    ∃ n, parameters.lookup key = some (.thing (.value (.int n))) ∧ Number.fits n = false
  | base => resources.isSome = true ∧
    ∃ t, parameters.lookup "baseScorer" = some (.thing t) ∧ t.Refuses

/-- A thing that refuses to be a key tells of the configuration just if its fault does. -/
theorem Thing.kind_of_keyFault? {t : Thing} (h : t.keyFault? = some fault) :
    fault.kind = .scorerConfiguration ↔ ¬ t.Refuses := by
  simp [Refuses, h]

theorem Thing.not_refuses {t : Thing} (h : t.keyFault? = none) : ¬ t.Refuses := by
  simp [Refuses, h]

/-- A type that can be a key is unknown. -/
theorem kind_of_typeFault? {p : Parameter} (h : typeFault? p = some fault) :
    fault.kind = .scorerConfiguration ↔ ¬ ∃ t, p = .thing t ∧ t.Refuses := by
  cases p with
  | scorer s =>
    obtain rfl := Option.some.inj h
    simp [Fault.kind]
  | thing t =>
    rw [typeFault?] at h
    cases hkey : t.keyFault? with
    | some other =>
      rw [hkey] at h
      obtain rfl := Option.some.inj h
      simp [Thing.kind_of_keyFault? hkey]
    | none =>
      rw [hkey] at h
      dsimp only at h
      split at h
      · obtain rfl := Option.some.inj h
        simp [Fault.kind, Thing.not_refuses hkey]
      · cases h

theorem kind_of_number {key : String} {default : Option Number}
    (h : number parameters key default = .error fault) : fault.kind = .scorerConfiguration ↔
      ¬ ∃ n, parameters.lookup key = some (.thing (.value (.int n))) ∧ Number.fits n = false := by
  unfold number at h
  cases hlookup : parameters.lookup key with
  | none =>
    rw [hlookup] at h
    cases default with
    | none =>
      obtain rfl := Except.error.inj h
      simp [Fault.kind]
    | some n => cases h
  | some p =>
    rw [hlookup] at h
    cases p with
    | scorer s =>
      obtain rfl := Except.error.inj h
      simp [Fault.kind]
    | thing t =>
      have hspoilt : (∃ n, some (Parameter.thing t) = some (.thing (.value (.int n))) ∧
          Number.fits n = false) ↔ t.toFloat = .error .tooLarge := by
        simp [toFloat_eq_tooLarge]
      rw [hspoilt]
      dsimp only at h
      split at h
      · cases h
      · rename_i hlarge
        obtain rfl := Except.error.inj h
        simp [Fault.kind, hlarge]
      · rename_i other hnot hother
        obtain rfl := Except.error.inj h
        refine iff_of_true rfl fun hlarge => ?_
        rw [hother] at hlarge
        exact hnot (Except.error.inj hlarge)

theorem kind_of_scorerOf {key : String} (h : scorerOf parameters key resources = .error fault) :
    fault.kind = .scorerConfiguration ↔ ¬ (resources.isSome = true ∧
      ∃ t, parameters.lookup key = some (.thing t) ∧ t.Refuses) := by
  rw [scorerOf] at h
  cases hlookup : parameters.lookup key with
  | none =>
    rw [hlookup] at h
    obtain rfl := Except.error.inj h
    simp [Fault.kind]
  | some p =>
    rw [hlookup] at h
    cases p with
    | scorer s => cases h
    | thing t =>
      cases resources with
      | none =>
        obtain rfl := Except.error.inj h
        simp [Fault.kind]
      | some resources =>
        cases hkey : t.keyFault? with
        | some other =>
          simp only [hkey] at h
          obtain rfl := Except.error.inj h
          simp [Thing.kind_of_keyFault? hkey]
        | none =>
          simp only [hkey] at h
          split at h
          · obtain rfl := Except.error.inj h
            simp [Fault.kind, Thing.not_refuses hkey]
          · cases h
          · cases h

/-- A read that fails tells of the configuration, unless its parameter is spoilt. -/
theorem Read.kind_of_fault (h : r.fault? parameters resources = some fault) :
    fault.kind = .scorerConfiguration ↔ ¬ r.Spoilt parameters resources := by
  cases r with
  | type => exact kind_of_typeFault? h
  | number key default => exact kind_of_number (Fault.of_eq_some.1 h)
  | base => exact kind_of_scorerOf (Fault.of_eq_some.1 h)

/-- A spoilt parameter makes its read fail. -/
theorem Read.exists_fault (h : r.Spoilt parameters resources) :
    ∃ fault, r.fault? parameters resources = some fault := by
  cases r with
  | type =>
    obtain ⟨t, ht, fault, hkey, -⟩ := h
    exact ⟨fault, by rw [fault?, ht, typeFault?, hkey]⟩
  | number key default =>
    obtain ⟨n, hn, hlarge⟩ := h
    have hfloat := toFloat_eq_tooLarge.2 ⟨n, rfl, hlarge⟩
    exact ⟨.tooLarge, by simp [fault?, Scorer.number, hn, hfloat, Fault.of]⟩
  | base =>
    obtain ⟨hresources, t, ht, fault, hkey, -⟩ := h
    obtain ⟨named, rfl⟩ := Option.isSome_iff_exists.1 hresources
    exact ⟨fault, by simp [fault?, scorerOf, ht, hkey, Fault.of]⟩

/-! What is made. -/

theorem real_of_number {key : String} {default : Option Number}
    (hdefault : ∀ n, default = some n → ∃ x, n = .real x) {n : Number}
    (h : number parameters key default = .ok n) : ∃ x, n = .real x := by
  unfold number at h
  split at h
  · split at h
    · obtain rfl := Except.ok.inj h
      exact hdefault _ rfl
    · cases h
  · cases h
  · split at h
    · exact ⟨_, (Except.ok.inj h).symm⟩
    · cases h
    · cases h

/-- A scale is read as a floating-point value. -/
theorem wellMade_maybeScaled {s s' : Scorer} (h : maybeScaled parameters s = .ok s') :
    s'.WellMade ↔ s.WellMade := by
  rw [maybeScaled] at h
  split at h
  · obtain ⟨scale, hscale, h⟩ := bind_eq_ok.1 h
    obtain rfl := Except.ok.inj h
    exact and_iff_right (real_of_number (by simp) hscale)
  · rw [Except.ok.inj h]

/-- A scorer that is made is well made just if its base is, where it has one. -/
theorem wellMade_create {s : Scorer} (h : create parameters resources = .ok s) :
    s.WellMade ↔ ∀ base, .base ∈ reads parameters →
      scorerOf parameters "baseScorer" resources = .ok base → base.WellMade := by
  have hnobase : Read.base ∉
      if (parameters.lookup "scale").isSome then [Read.number "scale" none] else [] := by
    split <;> simp
  rw [create, ← typeOf] at h
  rw [reads]
  generalize typeOf parameters = p at h
  cases p with
  | scorer s => cases h
  | thing t =>
    dsimp only at h
    split at h
    · cases h
    · split at h
      · obtain ⟨value, hvalue, h⟩ := bind_eq_ok.1 h
        rw [wellMade_maybeScaled h]
        have hreal := real_of_number (by simp) hvalue
        simp [readsFor, hnobase, WellMade, hreal]
      · obtain ⟨scale, hscale, h⟩ := bind_eq_ok.1 h
        obtain ⟨base, hbase, h⟩ := bind_eq_ok.1 h
        obtain rfl := Except.ok.inj h
        have hreal := real_of_number (by simp) hscale
        simp [readsFor, hbase, WellMade, hreal]
      · obtain ⟨coefficient, hcoefficient, h⟩ := bind_eq_ok.1 h
        obtain ⟨exponent, hexponent, h⟩ := bind_eq_ok.1 h
        rw [wellMade_maybeScaled h]
        have hreal := real_of_number (by simp) hcoefficient
        have hreal' := real_of_number (by simp) hexponent
        simp [readsFor, hnobase, WellMade, hreal, hreal']
      · obtain ⟨cost, hcost, h⟩ := bind_eq_ok.1 h
        obtain ⟨base, hbase, h⟩ := bind_eq_ok.1 h
        rw [wellMade_maybeScaled h]
        have hreal := real_of_number (by simp) hcost
        simp [readsFor, hbase, WellMade, hreal]
      · cases h

/-- Whether making a scorer ends as it should: with a scorer that is well made, or with a fault that
tells of the configuration. -/
def Sound (result : Except Fault Scorer) : Prop :=
  (∃ s, result = .ok s ∧ s.WellMade) ∨
    ∃ fault, result = .error fault ∧ fault.kind = .scorerConfiguration

/-- The ways in which parameters slip through: one that is read before any other read fails is
spoilt, or no read fails and the base is not well made. -/
inductive Slips (parameters : Parameters) (resources : Resources) : Prop where
  | spoilt {before after : List Read} {r : Read} (hreads : reads parameters = before ++ r :: after)
    (hbefore : ∀ x ∈ before, x.fault? parameters resources = none)
    (hr : r.Spoilt parameters resources)
  | base {base : Scorer} (hall : ∀ x ∈ reads parameters, x.fault? parameters resources = none)
    (hread : .base ∈ reads parameters)
    (hbase : scorerOf parameters "baseScorer" resources = .ok base) (hnot : ¬ base.WellMade)

theorem sound_create_iff (parameters : Parameters) (resources : Resources) :
    Sound (create parameters resources) ↔ ¬ Slips parameters resources := by
  have hfault := fault_create parameters resources
  cases hcreate : create parameters resources with
  | ok s =>
    rw [hcreate] at hfault
    have hall := List.findSome?_eq_none_iff.1 hfault.symm
    have hsound : Sound (.ok s) ↔ s.WellMade := by simp [Sound]
    rw [hsound, wellMade_create hcreate]
    constructor
    · rintro hbase (⟨hreads, -, hr⟩ | ⟨-, hread, hof, hnot⟩)
      · obtain ⟨fault, hr⟩ := Read.exists_fault hr
        rw [hall _ (hreads ▸ by simp)] at hr
        cases hr
      · exact hnot (hbase _ hread hof)
    · intro hslips base hread hof
      by_contra hnot
      exact hslips (.base hall hread hof hnot)
  | error fault =>
    rw [hcreate] at hfault
    obtain ⟨before, r, after, hreads, hr, hbefore⟩ := List.findSome?_eq_some_iff.1 hfault.symm
    have hsound : Sound (.error fault) ↔ fault.kind = .scorerConfiguration := by simp [Sound]
    rw [hsound, Read.kind_of_fault hr]
    constructor
    · rintro hnot (⟨hreads', hbefore', hspoilt⟩ | ⟨hall, -, -, -⟩)
      · -- the first read that fails is the spoilt one
        obtain ⟨fault', hr'⟩ := Read.exists_fault hspoilt
        have hsome := List.findSome?_eq_some_iff.2 ⟨_, _, _, hreads', hr', hbefore'⟩
        obtain rfl := Option.some.inj (hfault.trans hsome)
        exact (Read.kind_of_fault hr').1 ((Read.kind_of_fault hr).2 hnot) hspoilt
      · rw [hall r (hreads ▸ by simp)] at hr
        cases hr
    · exact fun hslips hspoilt => hslips (.spoilt hreads hbefore hspoilt)

/-! How scorers that are well made score. -/

theorem power_real (base : Nat) (exponent : Float) :
    Number.power base (.real exponent) = Number.realPower base exponent := rfl

theorem mul_real (a b : Float) : (Number.real a).mul (.real b) = .ok (.real (a * b)) := rfl

/-- A power that is no number has an arithmetical fault. -/
theorem realPower_cases (base : Nat) (exponent : Float) :
    (∃ x, Number.realPower base exponent = .ok (.real x)) ∨
      ∃ fault, Number.realPower base exponent = .error fault ∧
        (fault.kind = .zeroDivision ∨ fault.kind = .overflow) := by
  unfold Number.realPower
  split
  · exact .inr ⟨_, rfl, .inl rfl⟩
  · cases hbase : Number.ofInt? base with
    | error fault =>
      refine .inr ⟨fault, rfl, .inr ?_⟩
      rw [Number.ofInt?] at hbase
      split at hbase
      · cases hbase
      · rw [← Except.error.inj hbase]
        rfl
    | ok b =>
      dsimp only [bind, Except.bind]
      split
      · exact .inr ⟨_, rfl, .inr rfl⟩
      · exact .inl ⟨_, rfl⟩

variable {s : Scorer} {e : Entry}

/-- The scores of a scorer that is well made are floating-point values; if there is none, it is for
the innermost scorer, which leaves it open or has no power of the number of tokens. -/
theorem score_of_wellMade (h : s.WellMade) (e : Entry) :
    (∃ x, s.score e = .ok (.real x)) ∨ ∃ fault, s.score e = .error fault ∧
      (s.innermost = .abstract ∧ fault = .unimplemented ∨
        (∃ coefficient exponent, s.innermost = .length (.real coefficient) (.real exponent)) ∧
          (fault.kind = .zeroDivision ∨ fault.kind = .overflow)) := by
  induction s with
  | uniform value =>
    obtain ⟨x, rfl⟩ := h
    exact .inl ⟨x, rfl⟩
  | length coefficient exponent =>
    obtain ⟨⟨c, rfl⟩, x, rfl⟩ := h
    rcases realPower_cases e.tokens.length x with ⟨power, hpower⟩ | ⟨fault, hpower, hkind⟩
    · have hscore : (length (.real c) (.real x)).score e = (Number.real c).mul (.real power) := by
        rw [score, power_real, hpower]
        rfl
      exact .inl ⟨c * power, hscore.trans (mul_real c power)⟩
    · refine .inr ⟨fault, ?_, .inr ⟨⟨c, x, rfl⟩, hkind⟩⟩
      rw [score, power_real, hpower]
      rfl
  | scaled scale base ih =>
    obtain ⟨⟨x, rfl⟩, hbase⟩ := h
    rw [score, innermost]
    rcases ih hbase with ⟨y, hy⟩ | ⟨fault, hfault, hcause⟩
    · rw [hy]
      exact .inl ⟨x * y, mul_real x y⟩
    · rw [hfault]
      exact .inr ⟨fault, rfl, hcause⟩
  | skipping empty cost base ih =>
    obtain ⟨⟨x, rfl⟩, hbase⟩ := h
    rw [score, innermost]
    split
    · exact .inl ⟨x, rfl⟩
    · exact ih hbase
  | custom scorer => exact .inl (h e)
  | abstract => exact .inr ⟨_, rfl, .inl ⟨rfl, rfl⟩⟩
  | misplaced => exact h.elim

/-- Making a scorer ends with one that is well made or with a fault that tells of the configuration,
unless parameters slip through. A scorer that was made and is well made gives floating-point scores;
where it gives none, its innermost scorer leaves the score open or has no power of the number of
tokens. -/
theorem create_sound_iff (parameters : Parameters) (resources : Resources) :
    (Sound (create parameters resources) ↔ ¬ Slips parameters resources) ∧
    ∀ s, create parameters resources = .ok s → s.WellMade → ∀ e : Entry,
      (∃ x, s.score e = .ok (.real x)) ∨ ∃ fault, s.score e = .error fault ∧
        (s.innermost = .abstract ∧ fault = .unimplemented ∨
          (∃ coefficient exponent, s.innermost = .length (.real coefficient) (.real exponent)) ∧
            (fault.kind = .zeroDivision ∨ fault.kind = .overflow)) :=
  ⟨sound_create_iff parameters resources, fun _ _ hmade e => score_of_wellMade hmade e⟩

/-- Parameters that slip through: an integer that is too large, a type and a name that cannot be
keys, and a category in the place of a scorer, which is found when an entry is scored. -/
theorem create_slips :
    let huge : Parameters := [("type", .thing (.value (.text "scorer.uniform"))),
      ("value", .thing (.value (.int (10 ^ 400))))]
    let listed : Parameters := [("type", .thing (.value (.list [])))]
    let scaled (base : Value) : Parameters := [("type", .thing (.value (.text "scorer.scaled"))),
      ("scale", .thing (.value (.int 2))), ("baseScorer", .thing (.value base))]
    let named : Resources := some [("base", .thing (.category ⟨some (.primitive "N"), .none⟩))]
    create huge none = .error .tooLarge ∧ ¬ Sound (create huge none) ∧
    create listed none = .error (.unhashable "list") ∧ ¬ Sound (create listed none) ∧
    create (scaled (.list [])) named = .error (.unhashable "list") ∧
    ¬ Sound (create (scaled (.list [])) named) ∧ ¬ Sound (create (scaled (.text "base")) named) ∧
    ∃ s, create (scaled (.text "base")) named = .ok s ∧
      ∀ e, ∃ fault, s.score e = .error fault ∧ fault.kind = .member := by
  intro huge listed scaled named
  have hvalue : number huge "value" none = .error .tooLarge := by
    have hlookup : huge.lookup "value" = some (.thing (.value (.int (10 ^ 400)))) := rfl
    have hfloat : (Thing.value (.int (10 ^ 400))).toFloat = .error .tooLarge :=
      toFloat_eq_tooLarge.2 ⟨_, rfl, by decide +kernel⟩
    unfold number
    rw [hlookup]
    dsimp only
    rw [hfloat]
  have hhuge : create huge none = .error .tooLarge := by
    have hcreate : create huge none = number huge "value" none >>= fun value =>
      maybeScaled huge (.uniform value) := rfl
    rw [hcreate, hvalue]
    rfl
  have hlisted : create listed none = .error (.unhashable "list") := rfl
  have hname : create (scaled (.list [])) named = .error (.unhashable "list") := rfl
  have hcategory : ∃ x, create (scaled (.text "base")) named =
      .ok (.scaled x (.misplaced (.category ⟨some (.primitive "N"), .none⟩))) := ⟨_, rfl⟩
  obtain ⟨x, hcategory⟩ := hcategory
  refine ⟨hhuge, ?_, hlisted, ?_, hname, ?_, ?_, _, hcategory, fun e => ⟨_, rfl, rfl⟩⟩
  · simp [hhuge, Sound, Fault.kind]
  · simp [hlisted, Sound, Fault.kind]
  · simp [hname, Sound, Fault.kind]
  · simp [hcategory, Sound, WellMade]

end Scorer

end Categorial
