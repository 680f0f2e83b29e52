import Categorial.Number

/-!
Numbers that are whole: integers and truth values. Main statement: a whole number is compared as
the integer that it is.
-/

namespace Categorial.Number

theorem worth_of_whole {x : Number} {k : Int} (h : x.whole = .ok k) : x.worth = .inl k := by
  unfold whole at h
  split at h
  · rename_i n hn
    rw [hn, Except.ok.inj h]
  · simp at h

theorem lt_of_whole {x : Number} {k : Int} (h : x.whole = .ok k) (y : Number) :
    x.lt y = (int k).lt y := by
  rw [lt, worth_of_whole h]
  rfl

theorem le_of_whole {x : Number} {k : Int} (h : x.whole = .ok k) (n : Int) :
    x.le (int n) = decide (k ≤ n) := by
  rw [← le_int, le, le, lt_of_whole h, same, worth_of_whole h]
  rfl

end Categorial.Number
