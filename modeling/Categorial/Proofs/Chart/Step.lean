import Categorial.Chart.Cell
import Categorial.Proofs.Meaning.Equality

/-!
Being one node, and being the same step of a derivation, are equivalences of cells. One node is one
step; two steps on the same nodes are one step whatever their scores are.
-/

namespace Categorial.Cell

variable {K : Type}

mutual

theorem sameNode_refl : ∀ c : Cell K, sameNode c c = true
  | lexical e _ _ _ _ => by simp [sameNode, Entry.same_refl e]
  | derived category _ children _ _ _ _ => by
    simp [sameNode, Category.same_refl category, sameNodes_refl children]

theorem sameNodes_refl : ∀ cs : List (Cell K), sameNodes cs cs = true
  | [] => by simp [sameNodes]
  | c :: cs => by simp [sameNodes, sameNode_refl c, sameNodes_refl cs]

end

mutual

theorem sameNode_symm : ∀ a b : Cell K, sameNode a b = true → sameNode b a = true
  | lexical e s _ _ mark, b, h => by
    cases b with
    | lexical e' s' _ _ mark' =>
      simp only [sameNode, Bool.and_eq_true, beq_iff_eq] at h ⊢
      exact ⟨⟨h.1.1.symm, h.1.2.symm⟩, Entry.same_symm h.2⟩
    | derived => simp [sameNode] at h
  | derived category rule children _ _ _ mark, b, h => by
    cases b with
    | lexical => simp [sameNode] at h
    | derived category' rule' children' _ _ _ mark' =>
      simp only [sameNode, Bool.and_eq_true, beq_iff_eq] at h ⊢
      obtain ⟨⟨⟨hmark, hrule⟩, hcategory⟩, hchildren⟩ := h
      exact ⟨⟨⟨hmark.symm, hrule.symm⟩, Category.same_symm hcategory⟩,
        sameNodes_symm children children' hchildren⟩

theorem sameNodes_symm : ∀ as bs : List (Cell K), sameNodes as bs = true → sameNodes bs as = true
  | [], bs, h => by
    cases bs with
    | nil => exact h
    | cons b bs => simp [sameNodes] at h
  | a :: as, bs, h => by
    cases bs with
    | nil => simp [sameNodes] at h
    | cons b bs =>
      simp only [sameNodes, Bool.and_eq_true] at h ⊢
      exact ⟨sameNode_symm a b h.1, sameNodes_symm as bs h.2⟩

end

mutual

theorem sameNode_trans : ∀ a b c : Cell K,
    sameNode a b = true → sameNode b c = true → sameNode a c = true
  | lexical e s _ _ mark, b, c, hab, hbc => by
    cases b with
    | lexical e' s' _ _ mark' =>
      cases c with
      | lexical e'' s'' _ _ mark'' =>
        simp only [sameNode, Bool.and_eq_true, beq_iff_eq] at hab hbc ⊢
        exact ⟨⟨hab.1.1.trans hbc.1.1, hab.1.2.trans hbc.1.2⟩, Entry.same_trans hab.2 hbc.2⟩
      | derived => simp [sameNode] at hbc
    | derived => simp [sameNode] at hab
  | derived category rule children _ _ _ mark, b, c, hab, hbc => by
    cases b with
    | lexical => simp [sameNode] at hab
    | derived category' rule' children' _ _ _ mark' =>
      cases c with
      | lexical => simp [sameNode] at hbc
      | derived category'' rule'' children'' _ _ _ mark'' =>
        simp only [sameNode, Bool.and_eq_true, beq_iff_eq] at hab hbc ⊢
        obtain ⟨⟨⟨hmark, hrule⟩, hcategory⟩, hchildren⟩ := hab
        obtain ⟨⟨⟨hmark', hrule'⟩, hcategory'⟩, hchildren'⟩ := hbc
        exact ⟨⟨⟨hmark.trans hmark', hrule.trans hrule'⟩,
          Category.same_trans hcategory hcategory'⟩,
          sameNodes_trans children children' children'' hchildren hchildren'⟩

theorem sameNodes_trans : ∀ as bs cs : List (Cell K),
    sameNodes as bs = true → sameNodes bs cs = true → sameNodes as cs = true
  | [], bs, cs, hab, hbc => by
    cases bs with
    | nil => exact hbc
    | cons b bs => simp [sameNodes] at hab
  | a :: as, bs, cs, hab, hbc => by
    cases bs with
    | nil => simp [sameNodes] at hab
    | cons b bs =>
      cases cs with
      | nil => simp [sameNodes] at hbc
      | cons c cs =>
        simp only [sameNodes, Bool.and_eq_true] at hab hbc ⊢
        exact ⟨sameNode_trans a b c hab.1 hbc.1, sameNodes_trans as bs cs hab.2 hbc.2⟩

end

theorem sameStep_refl (c : Cell K) : sameStep c c = true := by
  cases c with
  | lexical e => simp [sameStep, Entry.same_refl e]
  | derived category _ children =>
    simp [sameStep, Category.same_refl category, sameNodes_refl children]

theorem sameStep_symm {a b : Cell K} (h : sameStep a b = true) : sameStep b a = true := by
  cases a with
  | lexical e s =>
    cases b with
    | lexical e' s' =>
      simp only [sameStep, Bool.and_eq_true, beq_iff_eq] at h ⊢
      exact ⟨h.1.symm, Entry.same_symm h.2⟩
    | derived => simp [sameStep] at h
  | derived category rule children =>
    cases b with
    | lexical => simp [sameStep] at h
    | derived category' rule' children' =>
      simp only [sameStep, Bool.and_eq_true, beq_iff_eq] at h ⊢
      exact ⟨⟨h.1.1.symm, Category.same_symm h.1.2⟩, sameNodes_symm _ _ h.2⟩

theorem sameStep_trans {a b c : Cell K} (hab : sameStep a b = true) (hbc : sameStep b c = true) :
    sameStep a c = true := by
  cases b with
  | lexical e' s' =>
    cases a with
    | lexical e s =>
      cases c with
      | lexical e'' s'' =>
        simp only [sameStep, Bool.and_eq_true, beq_iff_eq] at hab hbc ⊢
        exact ⟨hab.1.trans hbc.1, Entry.same_trans hab.2 hbc.2⟩
      | derived => simp [sameStep] at hbc
    | derived => simp [sameStep] at hab
  | derived category' rule' children' =>
    cases a with
    | lexical => simp [sameStep] at hab
    | derived category rule children =>
      cases c with
      | lexical => simp [sameStep] at hbc
      | derived category'' rule'' children'' =>
        simp only [sameStep, Bool.and_eq_true, beq_iff_eq] at hab hbc ⊢
        exact ⟨⟨hab.1.1.trans hbc.1.1, Category.same_trans hab.1.2 hbc.1.2⟩,
          sameNodes_trans _ _ _ hab.2 hbc.2⟩

theorem sameStep_comm (a b : Cell K) : sameStep a b = sameStep b a :=
  Bool.eq_iff_iff.2 ⟨sameStep_symm, sameStep_symm⟩

/-- One node is one step. -/
theorem sameStep_of_sameNode {a b : Cell K} (h : sameNode a b = true) : sameStep a b = true := by
  cases a with
  | lexical e s =>
    cases b with
    | lexical e' s' =>
      simp only [sameNode, sameStep, Bool.and_eq_true] at h ⊢
      exact ⟨h.1.2, h.2⟩
    | derived => simp [sameNode] at h
  | derived category rule children =>
    cases b with
    | lexical => simp [sameNode] at h
    | derived category' rule' children' =>
      simp only [sameNode, sameStep, Bool.and_eq_true] at h ⊢
      exact ⟨⟨h.1.1.2, h.1.2⟩, h.2⟩

theorem category_same_of_sameNode {a b : Cell K} (h : sameNode a b = true) :
    a.category.same b.category = true := by
  cases a with
  | lexical =>
    cases b with
    | lexical =>
      simp only [sameNode, Entry.same, Bool.and_eq_true] at h
      exact h.2.2
    | derived => simp [sameNode] at h
  | derived =>
    cases b with
    | lexical => simp [sameNode] at h
    | derived =>
      simp only [sameNode, Bool.and_eq_true] at h
      exact h.1.2

theorem sameNodes_pair {a b : Cell K} {cs : List (Cell K)} (h : sameNodes [a, b] cs = true) :
    ∃ a' b', cs = [a', b'] ∧ a.sameNode a' = true ∧ b.sameNode b' = true := by
  match cs with
  | [] | [_] | _ :: _ :: _ :: _ => simp [sameNodes] at h
  | [a', b'] =>
    simp only [sameNodes, Bool.and_eq_true] at h
    exact ⟨a', b', rfl, h.1, h.2.1⟩

theorem sameNodes_single {a : Cell K} {cs : List (Cell K)} (h : sameNodes [a] cs = true) :
    ∃ a', cs = [a'] ∧ a.sameNode a' = true := by
  match cs with
  | [] | _ :: _ :: _ => simp [sameNodes] at h
  | [a'] =>
    simp only [sameNodes, Bool.and_eq_true] at h
    exact ⟨a', rfl, h.1⟩

/-- Cells with children that are one step have one rule, the same category and the same children. -/
theorem parts_of_sameStep {a b : Cell K} (h : sameStep a b = true) (hchildren : a.children ≠ []) :
    a.rule = b.rule ∧ a.category.same b.category = true ∧
      sameNodes a.children b.children = true := by
  cases a with
  | lexical => exact absurd rfl hchildren
  | derived category rule children =>
    cases b with
    | lexical => simp [sameStep] at h
    | derived category' rule' children' =>
      simp only [sameStep, Bool.and_eq_true, beq_iff_eq] at h
      exact ⟨h.1.1, h.1.2, h.2⟩

end Categorial.Cell
