import Categorial.Lexicon.Entry

/-!
Being the same is an equivalence: of meanings, hence of categories and of entries. What a table
holds under a key can therefore be said by any of the keys that are the same; and what is the same
as a key can be a key.
-/

namespace Categorial

namespace Value

theorem sameNumber_iff {a b : Value} :
    sameNumber a b = true ↔ ∃ m, magnitude? a = some m ∧ magnitude? b = some m := by
  unfold sameNumber
  split
  · rename_i m n ha hb
    rw [beq_iff_eq]
    constructor
    · rintro rfl
      exact ⟨m, ha, hb⟩
    · rintro ⟨o, ha', hb'⟩
      rw [ha, Option.some.injEq] at ha'
      rw [hb, Option.some.injEq] at hb'
      rw [ha', hb']
  · rename_i h
    simp only [Bool.false_eq_true, false_iff, not_exists, not_and]
    intro m ha hb
    exact h m m ha hb

/-- Numbers are the same as whatever has their magnitude. -/
theorem same_eq_sameNumber {a : Value} (h : (magnitude? a).isSome) (b : Value) :
    same a b = sameNumber a b := by
  cases a <;> first | (simp [magnitude?] at h; done) | rw [same]

theorem same_of_sameNumber {a b : Value} (h : sameNumber a b = true) : same a b = true := by
  obtain ⟨m, ha, -⟩ := sameNumber_iff.1 h
  rw [same_eq_sameNumber (by simp [ha])]
  exact h

theorem sameNumber_symm {a b : Value} (h : sameNumber a b = true) : sameNumber b a = true := by
  obtain ⟨m, ha, hb⟩ := sameNumber_iff.1 h
  exact sameNumber_iff.2 ⟨m, hb, ha⟩

theorem sameNumber_trans {a b c : Value} (hab : sameNumber a b = true)
    (hbc : sameNumber b c = true) : sameNumber a c = true := by
  obtain ⟨m, ha, hb⟩ := sameNumber_iff.1 hab
  obtain ⟨n, hb', hc⟩ := sameNumber_iff.1 hbc
  obtain rfl : m = n := by simpa [hb] using hb'
  exact sameNumber_iff.2 ⟨m, ha, hc⟩

/-- What is the same as a number is the same as what that number is the same as. -/
theorem sameNumber_of_same {a b : Value} (ha : (magnitude? a).isSome) (h : same a b = true) :
    sameNumber a b = true := by
  rwa [same_eq_sameNumber ha] at h

theorem magnitude_isSome_of_sameNumber {a b : Value} (h : sameNumber a b = true) :
    (magnitude? b).isSome := by
  obtain ⟨m, -, hb⟩ := sameNumber_iff.1 h
  simp [hb]

/-- Sets are the same when each has an element for every element of the other. -/
theorem same_set_iff {xs ys : List Value} :
    same (set xs) (set ys) = true ↔
      (∀ x ∈ xs, ∃ y ∈ ys, same x y = true) ∧ ∀ y ∈ ys, ∃ x ∈ xs, same x y = true := by
  simp only [same, Bool.and_eq_true, allWithin_iff, List.all_eq_true, anySame_iff]

theorem same_symm_of_number {a b : Value} (ha : (magnitude? a).isSome) (h : same a b = true) :
    same b a = true :=
  same_of_sameNumber (sameNumber_symm (sameNumber_of_same ha h))

theorem same_trans_of_number {a b c : Value} (ha : (magnitude? a).isSome) (hab : same a b = true)
    (hbc : same b c = true) : same a c = true := by
  have hab := sameNumber_of_same ha hab
  have hbc := sameNumber_of_same (magnitude_isSome_of_sameNumber hab) hbc
  exact same_of_sameNumber (sameNumber_trans hab hbc)

mutual

theorem same_symm : ∀ a b : Value, same a b = true → same b a = true
  | none, b, h => by
    cases b with
    | none => exact h
    | _ => simp [same, isNone] at h
  | bool _, _, h => same_symm_of_number rfl h
  | int _, _, h => same_symm_of_number rfl h
  | real _, _, h => same_symm_of_number rfl h
  | undefined i, b, h => by
    cases b <;> simp_all [same]
  | text s, b, h => by
    cases b <;> simp_all [same]
  | tuple xs, b, h => by
    cases b with
    | tuple ys => simp only [same] at h ⊢; exact sameAll_symm xs ys h
    | _ => simp [same] at h
  | list xs, b, h => by
    cases b with
    | list ys => simp only [same] at h ⊢; exact sameAll_symm xs ys h
    | _ => simp [same] at h
  | set xs, b, h => by
    cases b with
    | set ys =>
      obtain ⟨forth, back⟩ := same_set_iff.1 h
      refine same_set_iff.2 ⟨?_, ?_⟩
      · intro y hy
        obtain ⟨x, hx, hs⟩ := back y hy
        exact ⟨x, hx, same_symm_of_mem xs x hx y hs⟩
      · intro x hx
        obtain ⟨y, hy, hs⟩ := forth x hx
        exact ⟨y, hy, same_symm_of_mem xs x hx y hs⟩
    | _ => simp [same] at h
  | coord c xs, b, h => by
    cases b with
    | coord d ys =>
      simp only [same, Bool.and_eq_true] at h ⊢
      exact ⟨same_symm c d h.1, sameAll_symm xs ys h.2⟩
    | _ => simp [same] at h
  | composed f g, b, h => by
    cases b with
    | composed f' g' =>
      simp only [same, Bool.and_eq_true] at h ⊢
      exact ⟨same_symm f f' h.1, same_symm g g' h.2⟩
    | _ => simp [same] at h
  | func s ps as, b, h => by
    cases b with
    | func t qs bs =>
      simp only [same, Bool.and_eq_true, beq_iff_eq] at h ⊢
      exact ⟨⟨h.1.1.symm, sameAll_symm ps qs h.1.2⟩, sameAll_symm as bs h.2⟩
    | _ => simp [same] at h
  | foreign _, b, h => by
    cases b <;> simp_all [same]

theorem sameAll_symm : ∀ as bs : List Value, sameAll as bs = true → sameAll bs as = true
  | [], bs, h => by
    cases bs with
    | nil => exact h
    | cons b bs => simp [sameAll] at h
  | a :: as, bs, h => by
    cases bs with
    | nil => simp [sameAll] at h
    | cons b bs =>
      simp only [sameAll, Bool.and_eq_true] at h ⊢
      exact ⟨same_symm a b h.1, sameAll_symm as bs h.2⟩

theorem same_symm_of_mem : ∀ as : List Value, ∀ a ∈ as, ∀ b, same a b = true → same b a = true
  | [], _, h, _, _ => by simp at h
  | a :: as, a', h, b, hs => (List.mem_cons.1 h).elim
    (fun e => by rw [e] at hs ⊢; exact same_symm a b hs)
    (fun h => same_symm_of_mem as a' h b hs)

end

mutual

theorem same_trans : ∀ a b c : Value, same a b = true → same b c = true → same a c = true
  | none, b, c, hab, hbc => by
    cases b with
    | none => exact hbc
    | _ => simp [same, isNone] at hab
  | bool _, _, _, hab, hbc => same_trans_of_number rfl hab hbc
  | int _, _, _, hab, hbc => same_trans_of_number rfl hab hbc
  | real _, _, _, hab, hbc => same_trans_of_number rfl hab hbc
  | undefined i, b, c, hab, hbc => by
    cases b <;> cases c <;> simp_all [same]
  | text s, b, c, hab, hbc => by
    cases b <;> cases c <;> simp_all [same]
  | tuple xs, b, c, hab, hbc => by
    cases b with
    | tuple ys =>
      cases c with
      | tuple zs => simp only [same] at hab hbc ⊢; exact sameAll_trans xs ys zs hab hbc
      | _ => simp [same] at hbc
    | _ => simp [same] at hab
  | list xs, b, c, hab, hbc => by
    cases b with
    | list ys =>
      cases c with
      | list zs => simp only [same] at hab hbc ⊢; exact sameAll_trans xs ys zs hab hbc
      | _ => simp [same] at hbc
    | _ => simp [same] at hab
  | set xs, b, c, hab, hbc => by
    cases b with
    | set ys =>
      cases c with
      | set zs =>
        obtain ⟨forth, back⟩ := same_set_iff.1 hab
        obtain ⟨forth', back'⟩ := same_set_iff.1 hbc
        refine same_set_iff.2 ⟨?_, ?_⟩
        · intro x hx
          obtain ⟨y, hy, hxy⟩ := forth x hx
          obtain ⟨z, hz, hyz⟩ := forth' y hy
          exact ⟨z, hz, same_trans_of_mem xs x hx y z hxy hyz⟩
        · intro z hz
          obtain ⟨y, hy, hyz⟩ := back' z hz
          obtain ⟨x, hx, hxy⟩ := back y hy
          exact ⟨x, hx, same_trans_of_mem xs x hx y z hxy hyz⟩
      | _ => simp [same] at hbc
    | _ => simp [same] at hab
  | coord d xs, b, c, hab, hbc => by
    cases b with
    | coord e ys =>
      cases c with
      | coord f zs =>
        simp only [same, Bool.and_eq_true] at hab hbc ⊢
        exact ⟨same_trans d e f hab.1 hbc.1, sameAll_trans xs ys zs hab.2 hbc.2⟩
      | _ => simp [same] at hbc
    | _ => simp [same] at hab
  | composed f g, b, c, hab, hbc => by
    cases b with
    | composed f' g' =>
      cases c with
      | composed f'' g'' =>
        simp only [same, Bool.and_eq_true] at hab hbc ⊢
        exact ⟨same_trans f f' f'' hab.1 hbc.1, same_trans g g' g'' hab.2 hbc.2⟩
      | _ => simp [same] at hbc
    | _ => simp [same] at hab
  | func s ps as, b, c, hab, hbc => by
    cases b with
    | func t qs bs =>
      cases c with
      | func u rs cs =>
        simp only [same, Bool.and_eq_true, beq_iff_eq] at hab hbc ⊢
        exact ⟨⟨hab.1.1.trans hbc.1.1, sameAll_trans ps qs rs hab.1.2 hbc.1.2⟩,
          sameAll_trans as bs cs hab.2 hbc.2⟩
      | _ => simp [same] at hbc
    | _ => simp [same] at hab
  | foreign _, b, c, hab, hbc => by
    cases b <;> cases c <;> simp_all [same]

theorem sameAll_trans : ∀ as bs cs : List Value,
    sameAll as bs = true → sameAll bs cs = true → sameAll as cs = true
  | [], bs, cs, hab, hbc => by
    cases bs with
    | nil => exact hbc
    | cons b bs => simp [sameAll] at hab
  | a :: as, bs, cs, hab, hbc => by
    cases bs with
    | nil => simp [sameAll] at hab
    | cons b bs =>
      cases cs with
      | nil => simp [sameAll] at hbc
      | cons c cs =>
        simp only [sameAll, Bool.and_eq_true] at hab hbc ⊢
        exact ⟨same_trans a b c hab.1 hbc.1, sameAll_trans as bs cs hab.2 hbc.2⟩

theorem same_trans_of_mem : ∀ as : List Value, ∀ a ∈ as, ∀ b c,
    same a b = true → same b c = true → same a c = true
  | [], _, h, _, _, _, _ => by simp at h
  | a :: as, a', h, b, c, hab, hbc => (List.mem_cons.1 h).elim
    (fun e => by rw [e] at hab ⊢; exact same_trans a b c hab hbc)
    (fun h => same_trans_of_mem as a' h b c hab hbc)

end

theorem keyFault?_of_number {v : Value} (h : (magnitude? v).isSome) :
    v.keyFault? = Option.none := by
  cases v <;> first | rfl | simp [magnitude?] at h

mutual

/-- Values that are the same refuse to be keys with the same fault, if they do. -/
theorem keyFault?_eq_of_same : ∀ a b : Value, same a b = true → a.keyFault? = b.keyFault?
  | none, b, h => by
    cases b with
    | none => rfl
    | _ => simp [same, isNone] at h
  | bool _, _, h =>
    (keyFault?_of_number (magnitude_isSome_of_sameNumber (sameNumber_of_same rfl h))).symm
  | int _, _, h =>
    (keyFault?_of_number (magnitude_isSome_of_sameNumber (sameNumber_of_same rfl h))).symm
  | real _, _, h =>
    (keyFault?_of_number (magnitude_isSome_of_sameNumber (sameNumber_of_same rfl h))).symm
  | undefined _, b, h => by
    cases b with
    | undefined _ => rfl
    | _ => simp [same] at h
  | text _, b, h => by
    cases b with
    | text _ => rfl
    | _ => simp [same] at h
  | tuple xs, b, h => by
    cases b with
    | tuple ys => exact keyFaultIn?_eq_of_same xs ys (by simpa [same] using h)
    | _ => simp [same] at h
  | list _, b, h => by
    cases b with
    | list _ => rfl
    | _ => simp [same] at h
  | set _, b, h => by
    cases b with
    | set _ => rfl
    | _ => simp [same] at h
  | coord c xs, b, h => by
    cases b with
    | coord d ys =>
      simp only [same, Bool.and_eq_true] at h
      rw [keyFault?, keyFault?, keyFault?_eq_of_same c d h.1, keyFaultIn?_eq_of_same xs ys h.2]
    | _ => simp [same] at h
  | composed f g, b, h => by
    cases b with
    | composed f' g' =>
      simp only [same, Bool.and_eq_true] at h
      rw [keyFault?, keyFault?, keyFault?_eq_of_same f f' h.1, keyFault?_eq_of_same g g' h.2]
    | _ => simp [same] at h
  | func _ ps as, b, h => by
    cases b with
    | func _ qs bs =>
      simp only [same, Bool.and_eq_true] at h
      rw [keyFault?, keyFault?, keyFaultIn?_eq_of_same ps qs h.1.2,
        keyFaultIn?_eq_of_same as bs h.2]
    | _ => simp [same] at h
  | foreign _, b, h => by
    cases b with
    | foreign _ =>
      simp only [same, beq_iff_eq] at h
      rw [h]
    | _ => simp [same] at h

theorem keyFaultIn?_eq_of_same : ∀ as bs : List Value, sameAll as bs = true →
    keyFaultIn? as = keyFaultIn? bs
  | [], bs, h => by
    cases bs with
    | nil => rfl
    | cons b bs => simp [sameAll] at h
  | a :: as, bs, h => by
    cases bs with
    | nil => simp [sameAll] at h
    | cons b bs =>
      simp only [sameAll, Bool.and_eq_true] at h
      rw [keyFaultIn?, keyFaultIn?, keyFault?_eq_of_same a b h.1, keyFaultIn?_eq_of_same as bs h.2]

end

theorem RefusesByType.of_same {a b : Value} (h : same a b = true) (ha : a.RefusesByType) :
    b.RefusesByType := by
  intro fault hfault
  exact ha fault ((keyFault?_eq_of_same a b h).trans hfault)

theorem isNone_of_same {a b : Value} (h : same a b = true) (ha : a.isNone = true) :
    b.isNone = true := by
  cases a with
  | none => rwa [same] at h
  | _ => simp [isNone] at ha

/-- Of two values that are the same, either both are no meaning or neither is. -/
theorem isNone_eq_of_same {a b : Value} (h : same a b = true) : a.isNone = b.isNone :=
  Bool.eq_iff_iff.2 ⟨isNone_of_same h, isNone_of_same (same_symm _ _ h)⟩

theorem isEmptyCollection_of_same {a b : Value} (h : same a b = true)
    (ha : a.isEmptyCollection = true) : b.isEmptyCollection = true := by
  cases a with
  | tuple xs | list xs | set xs =>
    obtain rfl := List.isEmpty_iff.1 ha
    cases b <;>
      simp_all [same, sameAll, allWithin, anySame, isEmptyCollection,
        List.eq_nil_iff_forall_not_mem]
  | _ => simp [isEmptyCollection] at ha

/-- Of two values that are the same, either both are empty collections or neither is. -/
theorem isEmptyCollection_eq_of_same {a b : Value} (h : same a b = true) :
    a.isEmptyCollection = b.isEmptyCollection :=
  Bool.eq_iff_iff.2 ⟨isEmptyCollection_of_same h, isEmptyCollection_of_same (same_symm _ _ h)⟩

end Value

namespace Category

/-- What is the same as a category that can be a key can be a key itself. -/
theorem hashable_of_same {a b : Category} (h : a.same b = true) (hkey : a.hashable = true) :
    b.hashable = true := by
  simp only [same, Bool.and_eq_true] at h
  rw [hashable, Value.hashable] at hkey ⊢
  rw [← Value.keyFault?_eq_of_same _ _ h.2]
  exact hkey

/-- Of two categories that are the same, either both are of skipped tokens or neither is. -/
theorem isEmpty_eq_of_same {a b : Category} (h : a.same b = true) : a.isEmpty = b.isEmpty := by
  simp only [same, Bool.and_eq_true] at h
  exact Bool.eq_iff_iff.2 ⟨Typing.same_trans (Typing.same_symm h.1), Typing.same_trans h.1⟩

theorem same_symm {a b : Category} (h : a.same b = true) : b.same a = true := by
  simp only [same, Bool.and_eq_true] at h ⊢
  exact ⟨Typing.same_symm h.1, Value.same_symm _ _ h.2⟩

theorem same_comm (a b : Category) : a.same b = b.same a :=
  Bool.eq_iff_iff.2 ⟨same_symm, same_symm⟩

theorem same_trans {a b c : Category} (hab : a.same b = true) (hbc : b.same c = true) :
    a.same c = true := by
  simp only [same, Bool.and_eq_true] at hab hbc ⊢
  exact ⟨Typing.same_trans hab.1 hbc.1, Value.same_trans _ _ _ hab.2 hbc.2⟩

end Category

namespace Entry

theorem same_symm {a b : Entry} (h : a.same b = true) : b.same a = true := by
  simp only [same, Bool.and_eq_true, beq_iff_eq] at h ⊢
  exact ⟨h.1.symm, Category.same_symm h.2⟩

theorem same_comm (a b : Entry) : a.same b = b.same a :=
  Bool.eq_iff_iff.2 ⟨same_symm, same_symm⟩

theorem same_trans {a b c : Entry} (hab : a.same b = true) (hbc : b.same c = true) :
    a.same c = true := by
  simp only [same, Bool.and_eq_true, beq_iff_eq] at hab hbc ⊢
  exact ⟨hab.1.trans hbc.1, Category.same_trans hab.2 hbc.2⟩

end Entry

end Categorial
