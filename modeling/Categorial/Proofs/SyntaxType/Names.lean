import Categorial.Proofs.SyntaxType.Denotation

/-!
Canonical names. The name of a type is derived by the grammar of types: only an argument that is
itself a slash type needs parentheses, since slashes associate to the left. Main statement: where
names are plain, the name of a type that is built from a system is read as that type, so that types
with one name are one type.
-/

namespace Categorial

/-- The types that are built from those of a system and the type of skipped tokens. -/
inductive Built (system : SyntaxSystem) : SyntaxType → Prop
  | empty : Built system .empty
  | defined {t : SyntaxType} (ht : system.find? t.name = some t) : Built system t
  | slash {main sub : SyntaxType} (d : Direction) (hmain : Built system main)
      (hsub : Built system sub) : Built system (.slash d main sub)
  | coordination {t : SyntaxType} (ht : Built system t) : Built system (.coordination t)

/-- Whether the types of a system have plain names other than that of the type of skipped tokens. -/
def SyntaxSystem.Named (system : SyntaxSystem) : Prop :=
  system.Plain ∧ ∀ t, some t ∈ system.types → t.name ≠ SyntaxType.empty.name

theorem named_default : SyntaxSystem.default.Named := by
  refine ⟨plain_default, fun t ht => ?_⟩
  simp only [SyntaxSystem.default, List.map_cons, List.map_nil, List.cons_append, List.nil_append,
    List.mem_cons, Option.some.injEq, List.not_mem_nil, or_false] at ht
  rcases ht with rfl | rfl | rfl | rfl | rfl <;> decide

namespace SyntaxType

variable {system : SyntaxSystem} {t : SyntaxType}

theorem toList_name_slash (d : Direction) (main sub : SyntaxType) :
    (slash d main sub).name.toList = main.name.toList ++ d.slash :: sub.argumentName.toList := by
  simp [name, argumentName]

theorem toList_name_coordination (t : SyntaxType) :
    (coordination t).name.toList = 'C' :: '[' :: (t.name.toList ++ [']']) := by
  simp [name]

theorem toList_argumentName (h : t.isFunction = true) :
    t.argumentName.toList = '(' :: (t.name.toList ++ [')']) := by
  simp [argumentName, h]

theorem argumentName_of_not_isFunction (h : t.isFunction = false) : t.argumentName = t.name := by
  simp [argumentName, h]

/-- A name is derived as a chain, and as a part unless it is that of a slash type. -/
theorem denotes_name (hnamed : system.Named) (h : Built system t) :
    Denotes system .chain t.name.toList t ∧
      (t.isFunction = false → Denotes system .part t.name.toList t) := by
  have hof : ∀ {t}, Denotes system .part t.name.toList t →
      Denotes system .chain t.name.toList t ∧
        (t.isFunction = false → Denotes system .part t.name.toList t) :=
    fun hpart => ⟨hpart.chain_of_part, fun _ => hpart⟩
  induction h with
  | empty => exact hof .empty
  | defined ht =>
    exact hof (.name (hnamed.2 _ (SyntaxSystem.mem_of_find? ht).1) ht)
  | @slash main sub d _ _ ihmain ihsub =>
    refine ⟨?_, fun hfunction => by cases hfunction⟩
    have hargument : Denotes system .part sub.argumentName.toList sub := by
      rw [argumentName]
      split
      · have hgroup := Denotes.group ihsub.1
        simpa using hgroup
      · rename_i hfunction
        exact ihsub.2 (by simpa using hfunction)
    have hslash := Denotes.slash d Text.blank_nil Text.blank_nil ihmain.1 hargument
    rw [List.nil_append, List.append_nil] at hslash
    rwa [toList_name_slash]
  | @coordination t _ ih =>
    have hpart := Denotes.coordination ih.1
    rw [← toList_name_coordination] at hpart
    exact hof hpart

/-- The parts of a slash type are built from a system if it is, since no defined name has a slash.
-/
theorem built_of_slash (hnamed : system.Named) {d : Direction} {main sub : SyntaxType}
    (h : Built system (slash d main sub)) : Built system main ∧ Built system sub := by
  cases h with
  | defined ht =>
    have hplain := (hnamed.1 _ (SyntaxSystem.mem_of_find? ht).1).plain d.slash
    rw [toList_name_slash] at hplain
    have hslash := (hplain (List.mem_append_right _ List.mem_cons_self)).2.2
    rw [slashOf?_eq_some.2 rfl] at hslash
    cases hslash
  | slash _ hmain hsub => exact ⟨hmain, hsub⟩

theorem built_of_coordination (hnamed : system.Named) (h : Built system (coordination t)) :
    Built system t := by
  cases h with
  | defined ht =>
    have hplain := (hnamed.1 _ (SyntaxSystem.mem_of_find? ht).1).plain '['
    rw [toList_name_coordination] at hplain
    exact absurd (hplain (List.mem_cons_of_mem _ List.mem_cons_self)).1 (by decide)
  | coordination ht => exact ht

theorem read_name (hnamed : system.Named) (h : Built system t) :
    read t.name (some system) = .ok t :=
  (denotes_name hnamed h).1.readPart_eq_ok hnamed.1 _

theorem eq_of_name_eq (hnamed : system.Named) {u : SyntaxType} (ht : Built system t)
    (hu : Built system u) (hname : t.name = u.name) : t = u := by
  have hread := read_name hnamed ht
  rw [hname, read_name hnamed hu] at hread
  exact (Except.ok.inj hread).symm

theorem typing_same_iff_eq (hnamed : system.Named) {u : SyntaxType} (ht : Built system t)
    (hu : Built system u) : Typing.same (some t) (some u) = true ↔ t = u := by
  rw [Typing.same_iff]
  exact ⟨fun hname => eq_of_name_eq hnamed ht hu (Option.some.inj hname), fun heq => heq ▸ rfl⟩

theorem isCoordinationOf_iff_eq (hnamed : system.Named) {u : SyntaxType} (ht : Built system t)
    (hu : Built system u) :
    Typing.isCoordinationOf (some t) (some u) = true ↔ t = coordination u := by
  cases t with
  | coordination t =>
    rw [Typing.isCoordinationOf, typing_same_iff_eq hnamed (built_of_coordination hnamed ht) hu,
      coordination.injEq]
  | _ => simp [Typing.isCoordinationOf]

/-- The name of a type that is built from a system is read as that type, down to its leaves. So two
such types are the same just if they are equal, and where a rule compares a part of a slash type, or
of a coordination, with another type, it compares that part as it was built. -/
theorem read_name_of_built (hnamed : system.Named) (h : Built system t) :
    read t.name (some system) = .ok t ∧
      ∀ u, Built system u →
        (t.same u = true ↔ t = u) ∧
        (∀ d main sub, t = slash d main sub →
          (Typing.same (some main) (some u) = true ↔ main = u) ∧
          (Typing.same (some sub) (some u) = true ↔ sub = u)) ∧
        (Typing.isCoordinationOf (some t) (some u) = true ↔ t = coordination u) := by
  refine ⟨read_name hnamed h, fun u hu => ⟨?_, ?_, isCoordinationOf_iff_eq hnamed h hu⟩⟩
  · rw [same_iff]
    exact ⟨eq_of_name_eq hnamed h hu, fun heq => heq ▸ rfl⟩
  · rintro d main sub rfl
    obtain ⟨hmain, hsub⟩ := built_of_slash hnamed h
    exact ⟨typing_same_iff_eq hnamed hmain hu, typing_same_iff_eq hnamed hsub hu⟩

/-- A slash type within a coordination and one in parentheses, on the two sides of a chain. -/
theorem read_name_nested :
    SyntaxSystem.default.Named ∧
      Built .default (slash .forward (coordination (slash .backward (primitive "S") .empty))
        (slash .forward (primitive "NP") (primitive "N"))) ∧
      read "C[S\\EMPTY]/(NP/N)" (some .default) =
        .ok (slash .forward (coordination (slash .backward (primitive "S") .empty))
          (slash .forward (primitive "NP") (primitive "N"))) := by
  have hbuilt : Built .default
      (slash .forward (coordination (slash .backward (primitive "S") .empty))
        (slash .forward (primitive "NP") (primitive "N"))) :=
    .slash _ (.coordination (.slash _ (.defined rfl) .empty))
      (.slash _ (.defined rfl) (.defined rfl))
  exact ⟨named_default, hbuilt, (read_name_of_built named_default hbuilt).1⟩

end SyntaxType

end Categorial
