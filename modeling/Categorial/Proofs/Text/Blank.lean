import Categorial.Text.Blank
import Mathlib.Data.List.DropRight

/-!
Trimming. A text is its trimmed part between two runs of blanks, and only that part decides what is
left of it. Main statements: blanks added at the ends are trimmed away again, and trimming a text
does not reach over a character that is not blank.
-/

namespace Categorial.Text

/-- Whether a text is made of blanks alone. -/
def Blank (cs : List Char) : Prop := ∀ c ∈ cs, isBlank c = true

theorem blank_nil : Blank [] := fun _ h => absurd h List.not_mem_nil

theorem Blank.append {xs ys : List Char} (hxs : Blank xs) (hys : Blank ys) : Blank (xs ++ ys) :=
  fun c hc => (List.mem_append.1 hc).elim (hxs c) (hys c)

theorem blank_takeWhile (cs : List Char) : Blank (cs.takeWhile isBlank) :=
  fun _ h => List.mem_takeWhile_imp h

theorem dropWhile_blank {xs : List Char} (h : Blank xs) (ys : List Char) :
    (xs ++ ys).dropWhile isBlank = ys.dropWhile isBlank :=
  List.dropWhile_append_of_pos h

theorem dropWhile_append_cons {c : Char} (hc : isBlank c = false) (xs ys : List Char) :
    (xs ++ c :: ys).dropWhile isBlank = xs.dropWhile isBlank ++ c :: ys := by
  induction xs with
  | nil => simp [hc]
  | cons x xs ih =>
    rw [List.cons_append, List.dropWhile_cons, List.dropWhile_cons]
    split
    · exact ih
    · rfl

theorem trimEnd_append_blank {ys : List Char} (h : Blank ys) (xs : List Char) :
    trimEnd (xs ++ ys) = trimEnd xs := by
  rw [trimEnd, List.reverse_append, dropWhile_blank, trimEnd]
  exact fun c hc => h c (List.mem_reverse.1 hc)

theorem trimEnd_append_cons {c : Char} (hc : isBlank c = false) (xs ys : List Char) :
    trimEnd (xs ++ c :: ys) = xs ++ c :: trimEnd ys := by
  simp [trimEnd, dropWhile_append_cons hc]

theorem exists_trimEnd (cs : List Char) : ∃ after, Blank after ∧ cs = trimEnd cs ++ after :=
  ⟨cs.rtakeWhile isBlank, fun _ h => List.mem_rtakeWhile_imp h,
    List.rdropWhile_append_rtakeWhile.symm⟩

/-- A text is its trimmed part between blanks. -/
theorem exists_trim (cs : List Char) :
    ∃ before after, Blank before ∧ Blank after ∧ cs = before ++ trim cs ++ after := by
  obtain ⟨after, hafter, hcs⟩ := exists_trimEnd (cs.dropWhile isBlank)
  refine ⟨cs.takeWhile isBlank, after, blank_takeWhile cs, hafter, ?_⟩
  rw [trim, List.append_assoc, ← hcs, List.takeWhile_append_dropWhile]

theorem trim_surround {before after : List Char} (hbefore : Blank before) (hafter : Blank after)
    (cs : List Char) : trim (before ++ cs ++ after) = trim cs := by
  rw [trim, trim, List.append_assoc, dropWhile_blank hbefore, List.dropWhile_append]
  split
  · rename_i hempty
    rw [List.isEmpty_iff.1 hempty, List.dropWhile_eq_nil_iff.2 hafter]
  · exact trimEnd_append_blank hafter _

/-- A text between two characters that are not blank is trimmed already. -/
theorem trim_of_ends {c c' : Char} (hc : isBlank c = false) (hc' : isBlank c' = false)
    (cs : List Char) : trim (c :: (cs ++ [c'])) = c :: (cs ++ [c']) := by
  have hend := trimEnd_append_cons hc' (c :: cs) []
  rw [trim, List.dropWhile_cons_of_neg (by simp [hc])]
  exact hend

theorem trim_append_cons {c : Char} (hc : isBlank c = false) (xs ys : List Char) :
    trim (xs ++ c :: ys) = xs.dropWhile isBlank ++ c :: trimEnd ys := by
  rw [trim, dropWhile_append_cons hc, trimEnd_append_cons hc]

theorem trim_dropWhile (cs : List Char) : trim (cs.dropWhile isBlank) = trim cs := by
  rw [trim, trim, List.dropWhile_idempotent]

theorem trim_trimEnd (cs : List Char) : trim (trimEnd cs) = trim cs := by
  obtain ⟨after, hafter, hcs⟩ := exists_trimEnd cs
  have hsurround := trim_surround blank_nil hafter (trimEnd cs)
  rw [List.nil_append, ← hcs] at hsurround
  exact hsurround.symm

theorem trim_trim (cs : List Char) : trim (trim cs) = trim cs :=
  (trim_trimEnd _).trans (trim_dropWhile cs)

end Categorial.Text
