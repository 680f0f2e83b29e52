import Mathlib.Data.List.Forall2
import Mathlib.Data.List.Perm.Basic
import Categorial.Fault

/-!
The lists that a step gives for the elements of a list, one after the other; the first fault ends
it. Main statements: gathering succeeds just if every step does, and then has what the steps give;
so does a map whose steps may fail, which gives one element for each; their faults are those of
steps.
-/

namespace Categorial

variable {α β γ : Type}

/-- A step after another one succeeds if both do. -/
theorem bind_eq_ok {x : Except Fault α} {f : α → Except Fault β} {b : β} :
    x.bind f = .ok b ↔ ∃ a, x = .ok a ∧ f a = .ok b := by
  cases x <;> simp [Except.bind]

/-- A step after another one fails if one of them does. -/
theorem bind_eq_error {x : Except Fault α} {f : α → Except Fault β} {fault : Fault} :
    x.bind f = .error fault ↔ x = .error fault ∨ ∃ a, x = .ok a ∧ f a = .error fault := by
  cases x <;> simp [Except.bind]

theorem map_eq_ok {x : Except Fault α} {f : α → β} {b : β} :
    x.map f = .ok b ↔ ∃ a, x = .ok a ∧ f a = b := by
  cases x <;> simp [Except.map]

theorem map_eq_error {x : Except Fault α} {f : α → β} {fault : Fault} :
    x.map f = .error fault ↔ x = .error fault := by
  cases x <;> simp [Except.map]

/-- What is no result is a fault. -/
theorem exists_error_iff {x : Except Fault α} :
    (∃ fault, x = .error fault) ↔ ¬ ∃ a, x = .ok a := by
  cases x <;> simp

/-- A map gives a list just if its steps give the elements of this list, each for its own. -/
theorem mapM_eq_ok {f : α → Except Fault β} {xs : List α} {ys : List β} :
    xs.mapM f = .ok ys ↔ List.Forall₂ (fun x y => f x = .ok y) xs ys := by
  induction xs generalizing ys with
  | nil => simp [pure, Except.pure, eq_comm]
  | cons x xs ih =>
    rw [List.mapM_cons, List.forall₂_cons_left_iff]
    constructor
    · intro h
      obtain ⟨y, hy, h⟩ := bind_eq_ok.1 h
      obtain ⟨rest, hrest, h⟩ := bind_eq_ok.1 h
      exact ⟨y, rest, hy, ih.1 hrest, (Except.ok.inj h).symm⟩
    · rintro ⟨y, rest, hy, hrest, rfl⟩
      rw [hy, ih.2 hrest]
      rfl

/-- What a map gives was given by a step. -/
theorem exists_of_mem_mapM {f : α → Except Fault β} {xs : List α} {ys : List β}
    (h : xs.mapM f = .ok ys) {y : β} (hy : y ∈ ys) : ∃ x ∈ xs, f x = .ok y := by
  induction mapM_eq_ok.1 h with
  | nil => cases hy
  | cons hstep hrest ih =>
    rcases List.mem_cons.1 hy with rfl | hy
    · exact ⟨_, List.mem_cons_self, hstep⟩
    · obtain ⟨x, hx, hstep⟩ := ih (mapM_eq_ok.2 hrest) hy
      exact ⟨x, List.mem_cons_of_mem _ hx, hstep⟩

theorem mapM_cons_eq_ok {f : α → Except Fault β} {a : α} {as : List α} {ys : List β} :
    (a :: as).mapM f = .ok ys ↔
      ∃ x xs, f a = .ok x ∧ as.mapM f = .ok xs ∧ ys = x :: xs := by
  rw [mapM_eq_ok, List.forall₂_cons_left_iff]
  simp only [mapM_eq_ok]

/-- A map whose steps succeed succeeds. -/
theorem exists_mapM {f : α → Except Fault β} {xs : List α}
    (h : ∀ x ∈ xs, ∃ y, f x = .ok y) : ∃ ys, xs.mapM f = .ok ys := by
  induction xs with
  | nil => exact ⟨[], rfl⟩
  | cons x xs ih =>
    obtain ⟨y, hy⟩ := h x List.mem_cons_self
    obtain ⟨ys, hys⟩ := ih fun x hx => h x (List.mem_cons_of_mem _ hx)
    exact ⟨y :: ys, mapM_cons_eq_ok.2 ⟨y, ys, hy, hys, rfl⟩⟩

/-- The fault of a map is that of a step. -/
theorem exists_of_mapM_error {f : α → Except Fault β} {xs : List α} {fault : Fault}
    (h : xs.mapM f = .error fault) : ∃ x ∈ xs, f x = .error fault := by
  induction xs with
  | nil => cases h
  | cons x xs ih =>
    rw [List.mapM_cons] at h
    rcases bind_eq_error.1 h with hx | ⟨_, -, h⟩
    · exact ⟨x, List.mem_cons_self, hx⟩
    · rcases bind_eq_error.1 h with hxs | ⟨_, -, hdone⟩
      · obtain ⟨x', hx', hfault⟩ := ih hxs
        exact ⟨x', List.mem_cons_of_mem _ hx', hfault⟩
      · cases hdone

/-- The fault of a fold is that of a step. -/
theorem exists_of_foldlM_error {f : β → α → Except Fault β} {xs : List α} {b : β} {fault : Fault}
    (h : xs.foldlM f b = .error fault) : ∃ x ∈ xs, ∃ b', f b' x = .error fault := by
  induction xs generalizing b with
  | nil => cases h
  | cons x xs ih =>
    rw [List.foldlM_cons] at h
    rcases bind_eq_error.1 h with hx | ⟨_, -, hxs⟩
    · exact ⟨x, List.mem_cons_self, b, hx⟩
    · obtain ⟨x', hx', hfault⟩ := ih hxs
      exact ⟨x', List.mem_cons_of_mem _ hx', hfault⟩

/-- A map over two lists gives what it gives over each of them. -/
theorem mapM_append_eq_ok {f : α → Except Fault β} {as bs : List α} {zs : List β} :
    (as ++ bs).mapM f = .ok zs ↔
      ∃ xs ys, as.mapM f = .ok xs ∧ bs.mapM f = .ok ys ∧ zs = xs ++ ys := by
  rw [List.mapM_append]
  constructor
  · intro h
    obtain ⟨xs, hxs, h⟩ := bind_eq_ok.1 h
    obtain ⟨ys, hys, h⟩ := bind_eq_ok.1 h
    exact ⟨xs, ys, hxs, hys, (Except.ok.inj h).symm⟩
  · rintro ⟨xs, ys, hxs, hys, rfl⟩
    rw [hxs, hys]
    rfl

/-- A map over the same elements in another order gives the same in another order. -/
theorem exists_mapM_of_perm {f : α → Except Fault β} {as bs : List α} (hperm : as.Perm bs)
    {ys : List β} (h : bs.mapM f = .ok ys) : ∃ xs, as.mapM f = .ok xs ∧ xs.Perm ys := by
  obtain ⟨xs, hxs, hperm'⟩ := List.perm_comp_forall₂ hperm (mapM_eq_ok.1 h)
  exact ⟨xs, mapM_eq_ok.2 hxs, hperm'⟩

theorem mem_of_filterAuxM {f : α → Except Fault Bool} {xs acc ys : List α}
    (h : xs.filterAuxM f acc = .ok ys) {y : α} (hy : y ∈ ys) : y ∈ acc ∨ y ∈ xs := by
  induction xs generalizing acc with
  | nil =>
    obtain rfl := Except.ok.inj h
    exact Or.inl hy
  | cons x xs ih =>
    obtain ⟨kept, -, hrest⟩ := bind_eq_ok.1 h
    rcases ih hrest with hacc | hxs
    · cases kept with
      | true =>
        rcases List.mem_cons.1 hacc with rfl | hacc
        · exact Or.inr List.mem_cons_self
        · exact Or.inl hacc
      | false => exact Or.inl hacc
    · exact Or.inr (List.mem_cons_of_mem x hxs)

/-- What a test that may fail keeps of a list is in the list. -/
theorem mem_of_filterM {f : α → Except Fault Bool} {xs ys : List α}
    (h : xs.filterM f = .ok ys) {y : α} (hy : y ∈ ys) : y ∈ xs := by
  obtain ⟨kept, hkept, hreverse⟩ := bind_eq_ok.1 h
  obtain rfl := Except.ok.inj hreverse
  exact (mem_of_filterAuxM hkept (List.mem_reverse.1 hy)).resolve_left List.not_mem_nil

/-- The lists that a step gives for the elements of a list, put together. -/
def gather (f : α → Except Fault (List β)) : List α → Except Fault (List β)
  | [] => .ok []
  | x :: xs => do
    let ys ← f x
    let rest ← gather f xs
    return ys ++ rest

theorem gather_cons (f : α → Except Fault (List β)) (x : α) (xs : List α) :
    gather f (x :: xs) = (f x).bind fun ys => (gather f xs).map fun rest => ys ++ rest := by
  rw [gather]
  cases f x with
  | error fault => rfl
  | ok ys => cases gather f xs <;> rfl

theorem gather_cons_eq_ok {f : α → Except Fault (List β)} {x : α} {xs : List α} {zs : List β} :
    gather f (x :: xs) = .ok zs ↔
      ∃ ys rest, f x = .ok ys ∧ gather f xs = .ok rest ∧ zs = ys ++ rest := by
  rw [gather_cons]
  cases f x with
  | error fault => simp [Except.bind]
  | ok ys => cases gather f xs <;> simp [Except.bind, Except.map, eq_comm]

/-- Gathering depends on the steps for the elements of the list alone. -/
theorem gather_congr {f g : α → Except Fault (List β)} {xs : List α}
    (h : ∀ x ∈ xs, f x = g x) : gather f xs = gather g xs := by
  induction xs with
  | nil => rfl
  | cons x xs ih =>
    rw [gather_cons, gather_cons, h x List.mem_cons_self,
      ih fun y hy => h y (List.mem_cons_of_mem x hy)]

/-- What is gathered was given by a step. -/
theorem mem_of_gather {f : α → Except Fault (List β)} {xs : List α} {ys : List β} {y : β}
    (h : gather f xs = .ok ys) (hy : y ∈ ys) : ∃ x ∈ xs, ∃ zs, f x = .ok zs ∧ y ∈ zs := by
  induction xs generalizing ys with
  | nil =>
    rw [gather, Except.ok.injEq] at h
    exact absurd (h ▸ hy) List.not_mem_nil
  | cons x xs ih =>
    obtain ⟨zs, rest, hx, hrest, rfl⟩ := gather_cons_eq_ok.1 h
    rcases List.mem_append.1 hy with hy | hy
    · exact ⟨x, List.mem_cons_self, zs, hx, hy⟩
    · obtain ⟨x', hx', hstep⟩ := ih hrest hy
      exact ⟨x', List.mem_cons_of_mem x hx', hstep⟩

/-- What a step gives is gathered. -/
theorem subset_of_gather {f : α → Except Fault (List β)} {xs : List α} {ys : List β} {x : α}
    (h : gather f xs = .ok ys) (hx : x ∈ xs) : ∃ zs, f x = .ok zs ∧ zs ⊆ ys := by
  induction xs generalizing ys with
  | nil => exact absurd hx List.not_mem_nil
  | cons a xs ih =>
    obtain ⟨zs, rest, ha, hrest, rfl⟩ := gather_cons_eq_ok.1 h
    rcases List.mem_cons.1 hx with rfl | hx
    · exact ⟨zs, ha, List.subset_append_left ..⟩
    · obtain ⟨zs', hzs', hsub⟩ := ih hrest hx
      exact ⟨zs', hzs', fun y hy => List.mem_append_right _ (hsub hy)⟩

/-- Steps that all succeed are gathered. -/
theorem gather_ok {f : α → Except Fault (List β)} {xs : List α}
    (h : ∀ x ∈ xs, ∃ ys, f x = .ok ys) : ∃ ys, gather f xs = .ok ys := by
  induction xs with
  | nil => exact ⟨[], rfl⟩
  | cons x xs ih =>
    obtain ⟨ys, hx⟩ := h x List.mem_cons_self
    obtain ⟨rest, hrest⟩ := ih fun y hy => h y (List.mem_cons_of_mem x hy)
    exact ⟨ys ++ rest, gather_cons_eq_ok.2 ⟨ys, rest, hx, hrest, rfl⟩⟩

/-- The fault of gathering is that of a step. -/
theorem exists_of_gather_error {f : α → Except Fault (List β)} {xs : List α} {fault : Fault}
    (h : gather f xs = .error fault) : ∃ x ∈ xs, f x = .error fault := by
  induction xs with
  | nil => cases h
  | cons x xs ih =>
    rcases bind_eq_error.1 h with hx | ⟨ys, -, h⟩
    · exact ⟨x, List.mem_cons_self, hx⟩
    · rcases bind_eq_error.1 h with hrest | ⟨rest, -, hdone⟩
      · obtain ⟨x', hx', hfault⟩ := ih hrest
        exact ⟨x', List.mem_cons_of_mem x hx', hfault⟩
      · cases hdone

theorem gather_append {α β : Type} {f : α → Except Fault (List β)} {xs xs' : List α}
    {ys ys' : List β} (h : gather f xs = .ok ys) (h' : gather f xs' = .ok ys') :
    gather f (xs ++ xs') = .ok (ys ++ ys') := by
  induction xs generalizing ys with
  | nil =>
    rw [gather, Except.ok.injEq] at h
    rw [← h]
    exact h'
  | cons x xs ih =>
    obtain ⟨zs, rest, hx, hrest, rfl⟩ := gather_cons_eq_ok.1 h
    rw [List.append_assoc]
    exact gather_cons_eq_ok.2 ⟨zs, rest ++ ys', hx, ih hrest, rfl⟩

/-- Where every step gives elements of the kind that its own element has, those of one kind are
gathered from the elements of that kind. -/
theorem gather_filter {f : α → Except Fault (List β)} {p : α → Bool} {q : β → Bool}
    (hpq : ∀ x zs, f x = .ok zs → ∀ z ∈ zs, q z = p x) {xs : List α} {ys : List β}
    (h : gather f xs = .ok ys) : gather f (xs.filter p) = .ok (ys.filter q) := by
  induction xs generalizing ys with
  | nil =>
    rw [gather, Except.ok.injEq] at h
    rw [← h]
    rfl
  | cons x xs ih =>
    obtain ⟨zs, rest, hx, hrest, rfl⟩ := gather_cons_eq_ok.1 h
    rw [List.filter_append]
    cases hp : p x with
    | true =>
      have hzs : zs.filter q = zs := List.filter_eq_self.2 fun z hz => (hpq x zs hx z hz).trans hp
      rw [List.filter_cons_of_pos hp, hzs]
      exact gather_cons_eq_ok.2 ⟨zs, _, hx, ih hrest, rfl⟩
    | false =>
      have hzs : zs.filter q = [] := by
        refine List.filter_eq_nil_iff.2 ?_
        intro z hz
        rw [hpq x zs hx z hz, hp]
        exact Bool.false_ne_true
      rw [List.filter_cons_of_neg (by simp [hp]), hzs, List.nil_append]
      exact ih hrest

theorem gather_map (f : β → Except Fault (List γ)) (g : α → β) (xs : List α) :
    gather f (xs.map g) = gather (fun x => f (g x)) xs := by
  induction xs with
  | nil => rfl
  | cons x xs ih => rw [List.map_cons, gather_cons, gather_cons, ih]

end Categorial
