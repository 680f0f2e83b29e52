import Categorial.Lexicon.View
import Categorial.Proofs.Collection.Top
import Categorial.Proofs.Meaning.Equality

/-!
The entries that a lexicon or a union of lexicons has for a token sequence. Main statements: they
have these tokens, they are entries of the lexicon, no two of them are the same, and there are none
for more tokens than the longest entry has.
-/

namespace Categorial

namespace Lexicon

variable {lexicon : Lexicon} {tokens : List String} {e : Entry}

theorem exists_group_of_mem_get (h : e ∈ lexicon.get tokens) :
    ∃ entries, (tokens, entries) ∈ lexicon.groups ∧ lexicon.get tokens = entries := by
  rw [get] at h ⊢
  cases hgroup : lexicon.groups.lookup tokens with
  | none => simp [hgroup] at h
  | some entries => exact ⟨entries, mem_of_lookup hgroup, rfl⟩

/-- The entries of a token sequence have these tokens. -/
theorem tokens_of_mem_get (h : e ∈ lexicon.get tokens) : e.tokens = tokens := by
  obtain ⟨entries, hgroup, hget⟩ := exists_group_of_mem_get h
  exact lexicon.filed.own _ hgroup e (hget ▸ h)

theorem contains_of_mem_get (h : e ∈ lexicon.get tokens) : lexicon.contains e = true := by
  rw [contains, tokens_of_mem_get h, List.any_eq_true]
  exact ⟨e, h, Entry.same_refl e⟩

/-- No two entries of a token sequence are the same. -/
theorem pairwise_get (lexicon : Lexicon) (tokens : List String) :
    (lexicon.get tokens).Pairwise fun a b => a.same b = false := by
  rw [get]
  cases hgroup : lexicon.groups.lookup tokens with
  | none => exact .nil
  | some entries => exact lexicon.filed.apart _ (mem_of_lookup hgroup)

/-- There are no entries for more tokens than the longest entry has. -/
theorem length_le_of_mem_get (h : e ∈ lexicon.get tokens) :
    tokens.length ≤ lexicon.maxEntryLength := by
  obtain ⟨entries, hgroup, -⟩ := exists_group_of_mem_get h
  exact lexicon.tallied.bound tokens (List.mem_map_of_mem hgroup)

end Lexicon

namespace LexiconView

variable {tokens : List String} {e : Entry}

mutual

/-- The entries of a token sequence have these tokens. -/
theorem tokens_of_mem_get : ∀ view : LexiconView, e ∈ view.get tokens → e.tokens = tokens
  | single lexicon, h => by
    rw [get] at h
    exact Lexicon.tokens_of_mem_get h
  | union parts, h => by
    rw [get] at h
    exact tokens_of_mem_getAll parts (mem_of_mem_distinctEntries h)

theorem tokens_of_mem_getAll : ∀ parts : List LexiconView,
    e ∈ getAll tokens parts → e.tokens = tokens
  | [], h => by
    rw [getAll] at h
    exact absurd h List.not_mem_nil
  | part :: parts, h => by
    rw [getAll, List.mem_append] at h
    rcases h with h | h
    · exact tokens_of_mem_get part h
    · exact tokens_of_mem_getAll parts h

end

mutual

/-- The entries of a token sequence are in the view. -/
theorem contains_of_mem_get : ∀ view : LexiconView, e ∈ view.get tokens → view.contains e = true
  | single lexicon, h => by
    rw [get] at h
    rw [contains]
    exact Lexicon.contains_of_mem_get h
  | union parts, h => by
    rw [get] at h
    rw [contains]
    exact anyContains_of_mem_getAll parts (mem_of_mem_distinctEntries h)

theorem anyContains_of_mem_getAll : ∀ parts : List LexiconView,
    e ∈ getAll tokens parts → anyContains e parts = true
  | [], h => by
    rw [getAll] at h
    exact absurd h List.not_mem_nil
  | part :: parts, h => by
    rw [getAll, List.mem_append] at h
    rw [anyContains, Bool.or_eq_true]
    rcases h with h | h
    · exact Or.inl (contains_of_mem_get part h)
    · exact Or.inr (anyContains_of_mem_getAll parts h)

end

mutual

/-- There are no entries for more tokens than the longest entry has. -/
theorem length_le_of_mem_get : ∀ view : LexiconView,
    e ∈ view.get tokens → tokens.length ≤ view.maxEntryLength
  | single lexicon, h => by
    rw [get] at h
    rw [maxEntryLength]
    exact Lexicon.length_le_of_mem_get h
  | union parts, h => by
    rw [get] at h
    rw [maxEntryLength]
    exact length_le_of_mem_getAll parts (mem_of_mem_distinctEntries h)

theorem length_le_of_mem_getAll : ∀ parts : List LexiconView,
    e ∈ getAll tokens parts → tokens.length ≤ maxOfAll parts
  | [], h => by
    rw [getAll] at h
    exact absurd h List.not_mem_nil
  | part :: parts, h => by
    rw [getAll, List.mem_append] at h
    rw [maxOfAll]
    rcases h with h | h
    · exact Nat.le_trans (length_le_of_mem_get part h) (Nat.le_max_left _ _)
    · exact Nat.le_trans (length_le_of_mem_getAll parts h) (Nat.le_max_right _ _)

end

/-- No two entries of a token sequence are the same. -/
theorem pairwise_get (view : LexiconView) (tokens : List String) :
    (view.get tokens).Pairwise fun a b => a.same b = false := by
  cases view with
  | single lexicon =>
    rw [get]
    exact Lexicon.pairwise_get lexicon tokens
  | union parts =>
    rw [get]
    exact pairwise_distinct Entry.same _

/-- Entries of a token sequence that are the same are one entry. -/
theorem eq_of_mem_get {view : LexiconView} {tokens : List String} {e e' : Entry}
    (he : e ∈ view.get tokens) (he' : e' ∈ view.get tokens) (hsame : e.same e' = true) : e = e' :=
  eq_of_pairwise Entry.same_comm (pairwise_get view tokens) he he' hsame

end LexiconView

end Categorial
