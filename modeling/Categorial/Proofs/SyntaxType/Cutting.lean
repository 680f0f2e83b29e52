import Categorial.Proofs.Text.Blank
import Categorial.SyntaxType.Reader

/-!
Brackets and cuts. A closed text leaves the depth of brackets as it found it, so that what stands
before it and behind it is read apart from it; inside brackets nothing is cut. Main statements: a
text is cut at a slash outside brackets behind which there is no other, and nowhere else.
-/

namespace Categorial.SyntaxType

open Categorial.Text

/-- Whether a character is neither a bracket nor a slash. -/
def Plain (c : Char) : Prop := opens c = false ∧ closes c = false ∧ slashOf? c = none

instance : DecidablePred Plain :=
  fun c => inferInstanceAs (Decidable (opens c = false ∧ closes c = false ∧ slashOf? c = none))

theorem plain_of_isBlank {c : Char} (h : isBlank c = true) : Plain c := by
  refine ⟨?_, ?_, ?_⟩
  · refine Bool.eq_false_iff.2 fun hopens => ?_
    simp only [opens, Bool.or_eq_true, beq_iff_eq] at hopens
    rcases hopens with rfl | rfl <;> exact absurd h (by decide)
  · refine Bool.eq_false_iff.2 fun hcloses => ?_
    simp only [closes, Bool.or_eq_true, beq_iff_eq] at hcloses
    rcases hcloses with rfl | rfl <;> exact absurd h (by decide)
  · rw [slashOf?, if_neg, if_neg] <;> rintro rfl <;> exact absurd h (by decide)

theorem plain_of_blank {cs : List Char} (h : Blank cs) : ∀ c ∈ cs, Plain c :=
  fun c hc => plain_of_isBlank (h c hc)

theorem slashOf?_eq_some {c : Char} {d : Direction} : slashOf? c = some d ↔ c = d.slash := by
  constructor
  · intro h
    rw [slashOf?] at h
    split at h
    · cases h
      assumption
    · split at h
      · cases h
        assumption
      · cases h
  · rintro rfl
    cases d <;> rfl

theorem isBlank_slash (d : Direction) : isBlank d.slash = false := by
  cases d <;> rfl

/-! The depth of brackets. -/

/-- The depth after a character, none if it closes a bracket that was never opened. -/
def depthAfter? (depth : Nat) (c : Char) : Option Nat :=
  if opens c then some (depth + 1)
  else if closes c then if depth = 0 then none else some (depth - 1)
  else some depth

theorem openBrackets?_cons (depth : Nat) (c : Char) (cs : List Char) :
    openBrackets? depth (c :: cs) = (depthAfter? depth c).bind (openBrackets? · cs) := by
  by_cases hopens : opens c = true
  · simp [openBrackets?, depthAfter?, hopens]
  · by_cases hcloses : closes c = true
    · cases depth <;> simp [openBrackets?, depthAfter?, hopens, hcloses]
    · simp [openBrackets?, depthAfter?, hopens, hcloses]

theorem depthAfter_of_some {depth depth' : Nat} {c : Char} (h : depthAfter? depth c = some depth') :
    depthAfter depth c = depth' := by
  rw [depthAfter?] at h
  rw [depthAfter]
  split_ifs at h ⊢ <;> exact Option.some.inj h

/-- Brackets around a text change nothing about the brackets in it. -/
theorem depthAfter?_add {depth depth' : Nat} {c : Char} (h : depthAfter? depth c = some depth')
    (around : Nat) : depthAfter? (depth + around) c = some (depth' + around) := by
  grind [depthAfter?]

theorem openBrackets?_append (depth : Nat) (xs ys : List Char) :
    openBrackets? depth (xs ++ ys) = (openBrackets? depth xs).bind (openBrackets? · ys) := by
  induction xs generalizing depth with
  | nil => rfl
  | cons c xs ih =>
    rw [List.cons_append, openBrackets?_cons, openBrackets?_cons, Option.bind_assoc]
    exact congrArg _ (funext fun depth' => ih depth')

theorem openBrackets?_plain {cs : List Char} (h : ∀ c ∈ cs, Plain c) (depth : Nat) :
    openBrackets? depth cs = some depth := by
  induction cs with
  | nil => rfl
  | cons c cs ih =>
    obtain ⟨hopens, hcloses, -⟩ := h c List.mem_cons_self
    rw [openBrackets?_cons, depthAfter?, hopens, hcloses]
    exact ih fun c hc => h c (List.mem_cons_of_mem _ hc)

theorem openBrackets?_add {depth depth' : Nat} {cs : List Char}
    (h : openBrackets? depth cs = some depth') (around : Nat) :
    openBrackets? (depth + around) cs = some (depth' + around) := by
  induction cs generalizing depth with
  | nil =>
    cases h
    rfl
  | cons c cs ih =>
    rw [openBrackets?_cons] at h ⊢
    obtain ⟨mid, hc, hcs⟩ := Option.bind_eq_some_iff.1 h
    rw [depthAfter?_add hc around]
    exact ih hcs

theorem foldl_depthAfter {depth depth' : Nat} {cs : List Char}
    (h : openBrackets? depth cs = some depth') : cs.foldl depthAfter depth = depth' := by
  induction cs generalizing depth with
  | nil =>
    cases h
    rfl
  | cons c cs ih =>
    rw [openBrackets?_cons] at h
    obtain ⟨mid, hc, hcs⟩ := Option.bind_eq_some_iff.1 h
    rw [List.foldl_cons, depthAfter_of_some hc]
    exact ih hcs

/-- Whether every bracket of a text closes in it, and none closes that was not opened in it. -/
def Closed (cs : List Char) : Prop := openBrackets? 0 cs = some 0

theorem closed_plain {cs : List Char} (h : ∀ c ∈ cs, Plain c) : Closed cs :=
  openBrackets?_plain h 0

theorem closed_blank {cs : List Char} (h : Blank cs) : Closed cs :=
  closed_plain (plain_of_blank h)

theorem closed_append {xs ys : List Char} (hxs : Closed xs) : Closed (xs ++ ys) ↔ Closed ys := by
  rw [Closed, openBrackets?_append, hxs]
  rfl

theorem Closed.of_append_blank {xs ys : List Char} (hys : Blank ys) (h : Closed (xs ++ ys)) :
    Closed xs := by
  rw [Closed, openBrackets?_append] at h
  obtain ⟨depth, hxs, hdepth⟩ := Option.bind_eq_some_iff.1 h
  rw [openBrackets?_plain (plain_of_blank hys)] at hdepth
  cases hdepth
  exact hxs

theorem Closed.surround {before after cs : List Char} (hbefore : Blank before)
    (hafter : Blank after) (h : Closed cs) : Closed (before ++ cs ++ after) := by
  rw [List.append_assoc, closed_append (closed_blank hbefore), closed_append h]
  exact closed_blank hafter

theorem Closed.slash {left right : List Char} (d : Direction) (hleft : Closed left)
    (hright : Closed right) : Closed (left ++ d.slash :: right) := by
  rw [closed_append hleft, Closed, openBrackets?_cons]
  cases d <;> exact hright

theorem Closed.dropWhile {cs : List Char} (h : Closed cs) : Closed (cs.dropWhile isBlank) := by
  rw [← List.takeWhile_append_dropWhile (p := isBlank) (l := cs),
    closed_append (closed_blank (blank_takeWhile cs))] at h
  exact h

theorem Closed.trimEnd {cs : List Char} (h : Closed cs) : Closed (trimEnd cs) := by
  obtain ⟨after, hafter, hcs⟩ := exists_trimEnd cs
  rw [hcs] at h
  exact h.of_append_blank hafter

theorem openBrackets?_inside {c' : Char} {cs : List Char} (hcloses : closes c' = true)
    (hother : opens c' = false) (h : Closed cs) : openBrackets? 1 (cs ++ [c']) = some 0 := by
  rw [openBrackets?_append, openBrackets?_add h 1, Option.bind_some, openBrackets?_cons,
    depthAfter?, hother, hcloses]
  rfl

/-- A closed text in brackets is closed. -/
theorem Closed.bracketed {c c' : Char} {cs : List Char} (hopens : opens c = true)
    (hcloses : closes c' = true) (hother : opens c' = false) (h : Closed cs) :
    Closed (c :: (cs ++ [c'])) := by
  rw [Closed, openBrackets?_cons, depthAfter?, if_pos hopens]
  exact openBrackets?_inside hcloses hother h

/-! Cuts. -/

theorem cutLast?_append (depth : Nat) (xs ys : List Char) :
    cutLast? depth (xs ++ ys) =
      match cutLast? (xs.foldl depthAfter depth) ys with
      | some (left, direction, right) => some (xs ++ left, direction, right)
      | none => (cutLast? depth xs).map fun cut => (cut.1, cut.2.1, cut.2.2 ++ ys) := by
  induction xs generalizing depth with
  | nil =>
    rw [List.nil_append, List.foldl_nil]
    cases cutLast? depth ys <;> rfl
  | cons c xs ih =>
    rw [List.cons_append, cutLast?, ih, List.foldl_cons]
    cases cutLast? (xs.foldl depthAfter (depthAfter depth c)) ys with
    | some cut => rfl
    | none =>
      rw [cutLast?]
      cases cutLast? (depthAfter depth c) xs with
      | some cut => rfl
      | none =>
        simp only [Option.map_none]
        split
        · rw [Option.map_map]
          rfl
        · rfl

theorem cutLast?_plain {cs : List Char} (h : ∀ c ∈ cs, Plain c) (depth : Nat) :
    cutLast? depth cs = none := by
  induction cs generalizing depth with
  | nil => rfl
  | cons c cs ih =>
    rw [cutLast?, ih fun c hc => h c (List.mem_cons_of_mem _ hc), (h c List.mem_cons_self).2.2]
    simp

/-- Inside brackets nothing is cut. -/
theorem cutLast?_inside {depth depth' : Nat} {cs : List Char}
    (h : openBrackets? depth cs = some depth') : cutLast? (depth + 1) cs = none := by
  induction cs generalizing depth with
  | nil => rfl
  | cons c cs ih =>
    rw [openBrackets?_cons] at h
    obtain ⟨mid, hc, hcs⟩ := Option.bind_eq_some_iff.1 h
    rw [cutLast?, depthAfter_of_some (depthAfter?_add hc 1), ih hcs]
    rfl

/-- A closed text in brackets is not cut. -/
theorem cutLast?_bracketed {c c' : Char} {cs : List Char} (hopens : opens c = true)
    (h : Closed cs) : cutLast? 0 (c :: (cs ++ [c'])) = none := by
  have hfirst : slashOf? c = none := by
    simp only [opens, Bool.or_eq_true, beq_iff_eq] at hopens
    rcases hopens with rfl | rfl <;> rfl
  have hrest : cutLast? 1 (cs ++ [c']) = none := by
    rw [cutLast?_append, foldl_depthAfter (openBrackets?_add h 1), cutLast?_inside h]
    rfl
  rw [cutLast?, depthAfter, if_pos hopens, hrest, hfirst]
  rfl

/-- A text is cut at a slash outside brackets behind which none follows. -/
theorem cutLast?_slash {left right : List Char} (d : Direction) (hleft : Closed left)
    (hright : cutLast? 0 right = none) :
    cutLast? 0 (left ++ d.slash :: right) = some (left, d, right) := by
  have hdepth : depthAfter 0 d.slash = 0 := by cases d <;> rfl
  rw [cutLast?_append, foldl_depthAfter hleft, cutLast?, hdepth, hright, slashOf?_eq_some.2 rfl]
  simp

/-- A cut takes out a slash behind which no cut is possible. -/
theorem eq_of_cutLast? {depth : Nat} {cs left right : List Char} {d : Direction}
    (h : cutLast? depth cs = some (left, d, right)) :
    cs = left ++ d.slash :: right ∧ cutLast? 0 right = none := by
  induction cs generalizing depth left with
  | nil => cases h
  | cons c cs ih =>
    rw [cutLast?] at h
    split at h
    · rename_i hcut
      cases h
      obtain ⟨rfl, hright⟩ := ih hcut
      exact ⟨rfl, hright⟩
    · rename_i hcut
      split at h
      · rename_i hdepth
        obtain ⟨d', hd, heq⟩ := Option.map_eq_some_iff.1 h
        cases heq
        obtain rfl := slashOf?_eq_some.1 hd
        have hafter : depthAfter depth d.slash = 0 := by
          subst hdepth
          cases d <;> rfl
        exact ⟨rfl, hafter ▸ hcut⟩
      · cases h

theorem cutLast?_surround {before after cs : List Char} (hbefore : Blank before)
    (hafter : Blank after) : cutLast? 0 (before ++ cs ++ after) = none ↔ cutLast? 0 cs = none := by
  rw [cutLast?_append, cutLast?_plain (plain_of_blank hafter), cutLast?_append,
    foldl_depthAfter (closed_blank hbefore), cutLast?_plain (plain_of_blank hbefore)]
  cases cutLast? 0 cs <;> simp

theorem cutLast?_trim {cs : List Char} : cutLast? 0 (trim cs) = none ↔ cutLast? 0 cs = none := by
  obtain ⟨before, after, hbefore, hafter, hcs⟩ := exists_trim cs
  have hsurround : cutLast? 0 (before ++ trim cs ++ after) = none ↔ cutLast? 0 (trim cs) = none :=
    cutLast?_surround hbefore hafter
  rw [← hsurround, ← hcs]

end Categorial.SyntaxType
