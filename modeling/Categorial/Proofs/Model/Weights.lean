import Mathlib.Algebra.Order.Ring.Rat
import Categorial.Proofs.Model.Changes
import Categorial.Proofs.Model.Vector

/-!
Where the weights of a model come from, over rational numbers. A key starts with the weight that it
has, or with the start score of the entry that is added first with this key, or with nothing; moves
add to it, and nothing else ever changes it. Main statement: after any changes, a weight is its
start with the moves added.
-/

namespace Categorial

/-- The step and the direction of a move. -/
def Change.move? {K : Type} : Change K → Option (K × SparseVector K)
  | .added _ => none
  | .moved step delta => some (step, delta)

theorem SparseVector.get_of_not_contains {v : SparseVector Rat} {k : FeatureKey}
    (h : v.contains k = false) : v.get k = 0 := by
  rw [get, Option.isNone_iff_eq_none.1 (Option.isSome_eq_false_iff.1 h)]
  rfl

namespace Model

variable {m : Model Rat} {e : Entry} {k : FeatureKey}

/-- The weight that a change starts a new key with: the start score of the entry that is added, by
the first feature set whose key it is; a move starts it with nothing. -/
def firstWeight (m : Model Rat) (k : FeatureKey) : Change Rat → Rat
  | .added e =>
    match m.lexical.find? fun f => f.key e = k with
    | some f => ((f.start e).toOption).getD 0
    | none => 0
  | .moved _ _ => 0

/-- The weight that a key starts with: the one that it has, or else the one that the first of some
changes after which it has one starts it with. -/
def startWeight (m : Model Rat) (k : FeatureKey) : List (Change Rat) → Rat
  | [] => m.theta.get k
  | c :: changes =>
    if m.theta.contains k then m.theta.get k
    else if (m.change c).theta.contains k then m.firstWeight k c
    else (m.change c).startWeight k changes

theorem startWeight_of_contains (h : m.theta.contains k = true) (changes : List (Change Rat)) :
    m.startWeight k changes = m.theta.get k := by
  cases changes with
  | nil => rfl
  | cons c changes => rw [startWeight, if_pos h]

/-- The first feature set with a new key of an entry gives its start score to the key. -/
theorem get?_learnWeights_new {fs : List LexicalFeatures} {theta : SparseVector Rat}
    (hnone : theta.contains k = false) (h : (learnWeights e fs theta).2.contains k = true) :
    ∃ f w, fs.find? (fun f => f.key e = k) = some f ∧ f.start e = .ok w ∧
      (learnWeights e fs theta).2.get? k = some w := by
  induction fs generalizing theta with
  | nil =>
    rw [learnWeights, hnone] at h
    cases h
  | cons f fs ih =>
    rw [learnWeights] at h ⊢
    cases hlearn : f.learn e theta with
    | error fault =>
      rw [hlearn] at h
      rw [hnone] at h
      cases h
    | ok theta' =>
      rw [hlearn] at h
      by_cases hkey : f.key e = k
      · rcases cases_of_learn hlearn with ⟨hold, -⟩ | ⟨-, start, weight, hstart, hweight, rfl⟩
        · rw [hkey, hnone] at hold
          cases hold
        · obtain rfl : start = weight := Except.ok.inj hweight
          refine ⟨f, start, List.find?_cons_of_pos (by simpa using hkey), hstart, ?_⟩
          refine get?_learnWeights fs ?_
          rw [hkey, SparseVector.get?_set, if_pos rfl]
      · rw [List.find?_cons_of_neg (by simpa using hkey)]
        refine ih ?_ h
        rw [SparseVector.contains, get?_learn_of_ne hlearn (Ne.symm hkey)]
        exact hnone

/-- What a move adds to a key. -/
def moveAt (k : FeatureKey) (move : Rat × SparseVector Rat) : Rat := move.1 * move.2.get k

/-- A change keeps a weight, apart from what a move adds to it. -/
theorem get_change (h : m.theta.contains k = true) (c : Change Rat) :
    (m.change c).theta.get k = m.theta.get k + (c.move?.map (moveAt k)).getD 0 := by
  cases c with
  | moved step delta => exact SparseVector.get_addTimes _ _ _ _
  | added e =>
    obtain ⟨w, hw⟩ := Option.isSome_iff_exists.1 h
    rw [Change.move?, Option.map_none, Option.getD_none, add_zero, change, addEntry_eq]
    split
    · rfl
    · rw [SparseVector.get, SparseVector.get, get?_learnWeights m.lexical hw, hw]

/-- A new key has the weight that the change starts it with, and what a move adds to it. -/
theorem get_change_new (hnone : m.theta.contains k = false) {c : Change Rat}
    (h : (m.change c).theta.contains k = true) :
    (m.change c).theta.get k = m.firstWeight k c + (c.move?.map (moveAt k)).getD 0 := by
  cases c with
  | moved step delta =>
    have hmove := SparseVector.get_addTimes m.theta delta step k
    rwa [SparseVector.get_of_not_contains hnone] at hmove
  | added e =>
    rw [change, addEntry_eq] at h ⊢
    split at h
    · rw [hnone] at h
      cases h
    · rename_i hnew
      rw [if_neg hnew]
      obtain ⟨f, w, hfind, hstart, hw⟩ := get?_learnWeights_new hnone h
      rw [Change.move?, Option.map_none, Option.getD_none, add_zero, firstWeight, hfind]
      simp only [hstart, SparseVector.get, hw]
      rfl

/-- A key that a change leaves without a weight gets nothing from a move. -/
theorem moveAt_of_not_contains {c : Change Rat} (h : (m.change c).theta.contains k = false) :
    (c.move?.map (moveAt k)).getD 0 = 0 := by
  cases c with
  | added e => rfl
  | moved step delta =>
    have hold : m.theta.contains k = false := by
      rw [← Bool.not_eq_true]
      intro hold
      rw [contains_change _ hold] at h
      cases h
    have hmove := SparseVector.get_addTimes m.theta delta step k
    rw [SparseVector.get_of_not_contains hold, zero_add] at hmove
    exact hmove.symm.trans (SparseVector.get_of_not_contains h)

/-- After any changes, a weight is its start with what the moves add to it. -/
theorem get_after (m : Model Rat) (changes : List (Change Rat)) (k : FeatureKey) :
    (m.after changes).theta.get k =
      m.startWeight k changes + ((changes.filterMap Change.move?).map (moveAt k)).sum := by
  induction changes generalizing m with
  | nil => exact (add_zero _).symm
  | cons c changes ih =>
    have hsum : (((c :: changes).filterMap Change.move?).map (moveAt k)).sum =
        (c.move?.map (moveAt k)).getD 0 +
          ((changes.filterMap Change.move?).map (moveAt k)).sum := by
      cases c with
      | added e => exact (zero_add _).symm
      | moved step delta => exact List.sum_cons
    rw [after_cons, ih, hsum, ← add_assoc]
    congr 1
    rw [startWeight]
    -- the key has its weight before the change, or gets it from the change, or later if ever
    cases hold : m.theta.contains k with
    | true => rw [if_pos rfl, startWeight_of_contains (contains_change c hold), get_change hold]
    | false =>
      rw [if_neg Bool.false_ne_true]
      cases hnew : (m.change c).theta.contains k with
      | true => rw [if_pos rfl, startWeight_of_contains hnew, get_change_new hold hnew]
      | false => rw [if_neg Bool.false_ne_true, moveAt_of_not_contains hnew, add_zero]

end Model

end Categorial
