/-!
Texts that are put together from parts. Main statements: words with single blanks between them, and
a text without a colon with another one behind a colon, can be told apart again.
-/

namespace Categorial.Text

/-- Whether a text is a word: it has characters, none of which is a space. -/
def Word (t : String) : Prop := t ≠ "" ∧ ' ' ∉ t.toList

instance (t : String) : Decidable (Word t) := inferInstanceAs (Decidable (_ ∧ _))

/-- The pieces of a joined text between its spaces are the words it was joined from. -/
theorem splitOn_intercalate {ts : List String} (h : ∀ t ∈ ts, Word t) (hne : ts ≠ []) :
    (" ".intercalate ts).toList.splitOn ' ' = ts.map String.toList := by
  rw [String.toList_intercalate]
  refine List.splitOn_intercalate ' ' ?_ (by simpa using hne)
  intro cs hcs
  obtain ⟨t, ht, rfl⟩ := List.mem_map.1 hcs
  exact (h t ht).2

theorem intercalate_ne_empty {ts : List String} (h : ∀ t ∈ ts, Word t) (hne : ts ≠ []) :
    " ".intercalate ts ≠ "" := by
  intro hempty
  have hpieces := splitOn_intercalate h hne
  rw [hempty] at hpieces
  -- an empty text has one piece, which is no word
  obtain ⟨t, rfl, ht⟩ := List.map_eq_singleton_iff.1 hpieces.symm
  exact (h t (List.mem_singleton_self t)).1 (String.toList_eq_nil_iff.1 ht)

/-- Words that are joined to the same text are the same words. -/
theorem intercalate_inj {ts ts' : List String} (h : ∀ t ∈ ts, Word t) (h' : ∀ t ∈ ts', Word t) :
    " ".intercalate ts = " ".intercalate ts' ↔ ts = ts' := by
  refine ⟨fun heq => ?_, congrArg _⟩
  cases ts with
  | nil =>
    cases ts' with
    | nil => rfl
    | cons t' ts' => exact absurd heq.symm (intercalate_ne_empty h' (List.cons_ne_nil _ _))
  | cons t ts =>
    cases ts' with
    | nil => exact absurd heq (intercalate_ne_empty h (List.cons_ne_nil _ _))
    | cons t' ts' =>
      have hpieces := splitOn_intercalate h (List.cons_ne_nil _ _)
      rw [heq, splitOn_intercalate h' (List.cons_ne_nil _ _)] at hpieces
      exact (List.map_inj_right fun _ _ => String.toList_inj.1).1 hpieces.symm

theorem append_cons_inj {c : Char} {xs xs' ys ys' : List Char} (hxs : c ∉ xs) (hxs' : c ∉ xs') :
    xs ++ c :: ys = xs' ++ c :: ys' ↔ xs = xs' ∧ ys = ys' := by
  induction xs generalizing xs' with
  | nil =>
    cases xs' with
    | nil => simp
    | cons x' xs' =>
      refine ⟨fun h => ?_, by simp⟩
      exact absurd ((List.cons.inj h).1 ▸ List.mem_cons_self) hxs'
  | cons x xs ih =>
    rw [List.mem_cons, not_or] at hxs
    cases xs' with
    | nil =>
      refine ⟨fun h => ?_, by simp⟩
      exact absurd (List.cons.inj h).1.symm hxs.1
    | cons x' xs' =>
      rw [List.mem_cons, not_or] at hxs'
      simp [ih hxs.2 hxs'.2, and_assoc]

/-- A text without a colon, and what stands behind it. -/
theorem labelled_inj {s s' d d' : String} (hs : ':' ∉ s.toList) (hs' : ':' ∉ s'.toList) :
    s ++ " : " ++ d = s' ++ " : " ++ d' ↔ s = s' ∧ d = d' := by
  refine ⟨fun heq => ?_, fun ⟨hs, hd⟩ => by rw [hs, hd]⟩
  have hlist : (s.toList ++ [' ']) ++ ':' :: ' ' :: d.toList =
      (s'.toList ++ [' ']) ++ ':' :: ' ' :: d'.toList := by
    simpa using congrArg String.toList heq
  rw [append_cons_inj (by simp [hs]) (by simp [hs'])] at hlist
  simpa [String.toList_inj] using hlist

theorem labelled_ne {s s' d : String} (hs' : ':' ∉ s'.toList) : s ++ " : " ++ d ≠ s' := by
  rintro rfl
  simp at hs'

end Categorial.Text
