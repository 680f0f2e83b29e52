import Categorial.Proofs.Lexicon.Growth

/-!
What adding entries does to a lexicon. Main statements: the entries that are there stay, in their
order both among those of their tokens and among all; besides them the lexicon has just those that
are added; it grows by one for each that was not there; and entries that are added for one token
sequence after the other stand in the order of these sequences.
-/

namespace Categorial

theorem Entry.tokens_eq_of_same {e e' : Entry} (h : e.same e' = true) : e.tokens = e'.tokens := by
  rw [same, Bool.and_eq_true, beq_iff_eq] at h
  exact h.1

namespace Lexicon

variable {lexicon lexicon' lexicon'' : Lexicon} {e x : Entry}

theorem exists_insertGroup (e : Entry) (groups : List (List String × List Entry)) :
    ∃ before behind, groups.flatMap (·.2) = before ++ behind ∧
      (insertGroup e groups).flatMap (·.2) = before ++ e :: behind := by
  induction groups with
  | nil => exact ⟨[], [], rfl, rfl⟩
  | cons group groups ih =>
    rw [insertGroup]
    split
    · exact ⟨group.2, groups.flatMap (·.2), by simp, by simp⟩
    · obtain ⟨before, behind, hgroups, hinsert⟩ := ih
      exact ⟨group.2 ++ before, behind, by simp [hgroups], by simp [hinsert]⟩

/-- An added entry stands somewhere among the others, which keep their order. -/
theorem exists_entries_insert (h : lexicon.contains e = false) :
    ∃ before behind, lexicon.entries = before ++ behind ∧
      (lexicon.insert e).entries = before ++ e :: behind := by
  obtain ⟨before, behind, hgroups, hinsert⟩ := exists_insertGroup e lexicon.groups
  refine ⟨before, behind, hgroups, ?_⟩
  rw [entries, insert, add]
  simpa [h] using hinsert

/-- A lexicon with an entry added stores what it stored, and the entry if it was new. -/
theorem mem_entries_insert (lexicon : Lexicon) (e x : Entry) :
    x ∈ (lexicon.insert e).entries ↔
      x ∈ lexicon.entries ∨ x = e ∧ lexicon.contains e = false := by
  cases h : lexicon.contains e with
  | true =>
    rw [insert_of_contains h]
    simp
  | false =>
    obtain ⟨before, behind, hentries, hinsert⟩ := exists_entries_insert h
    rw [hentries, hinsert, List.mem_append, List.mem_append, List.mem_cons, or_left_comm, or_comm]
    simp

theorem size_insert (lexicon : Lexicon) (e : Entry) :
    (lexicon.insert e).size = lexicon.size + if lexicon.contains e then 0 else 1 := by
  cases h : lexicon.contains e with
  | true => rw [insert_of_contains h]; rfl
  | false => simp [insert, add, h]

/-- A lexicon with an entry added has what it had, and what is the same as the entry. -/
theorem contains_insert (lexicon : Lexicon) (e x : Entry) :
    (lexicon.insert e).contains x = true ↔ lexicon.contains x = true ∨ e.same x = true := by
  rw [contains, get_insert]
  split
  · rename_i htokens
    rw [appendNew]
    split
    · rename_i hold
      refine ⟨Or.inl, fun h => h.elim id fun hsame => ?_⟩
      obtain ⟨y, hy, hye⟩ := List.any_eq_true.1 hold
      exact List.any_eq_true.2 ⟨y, hy, Entry.same_trans hye hsame⟩
    · rw [List.any_append, Bool.or_eq_true, List.any_cons, List.any_nil, Bool.or_false, contains]
  · rename_i htokens
    refine ⟨Or.inl, fun h => h.elim id fun hsame => ?_⟩
    exact absurd (Entry.tokens_eq_of_same hsame) htokens

theorem contains_foldl_insert (lexicon : Lexicon) (es : List Entry) (x : Entry) :
    (es.foldl insert lexicon).contains x = true ↔
      lexicon.contains x = true ∨ ∃ e ∈ es, e.same x = true := by
  induction es generalizing lexicon with
  | nil => simp
  | cons e es ih =>
    rw [List.foldl_cons, ih, contains_insert]
    simp only [List.mem_cons, exists_eq_or_imp, or_assoc]

/-- Entries that are the same as ones in the lexicon add nothing. -/
theorem foldl_insert_of_contains {es : List Entry} (h : ∀ e ∈ es, lexicon.contains e = true) :
    es.foldl insert lexicon = lexicon := by
  induction es with
  | nil => rfl
  | cons e es ih =>
    rw [List.foldl_cons, insert_of_contains (h e List.mem_cons_self)]
    exact ih fun x hx => h x (List.mem_cons_of_mem e hx)

/-- Added entries never make a lexicon smaller. -/
theorem size_le_foldl_insert (lexicon : Lexicon) (es : List Entry) :
    lexicon.size ≤ (es.foldl insert lexicon).size := by
  induction es generalizing lexicon with
  | nil => exact Nat.le_refl _
  | cons e es ih =>
    refine Nat.le_trans ?_ (ih (lexicon.insert e))
    rw [size_insert]
    exact Nat.le_add_right _ _

/-- Entries that do not make a lexicon larger were all in it. -/
theorem contains_of_size_foldl_insert {es : List Entry}
    (h : (es.foldl insert lexicon).size = lexicon.size) : ∀ e ∈ es, lexicon.contains e = true := by
  induction es with
  | nil => simp
  | cons e es ih =>
    rw [List.foldl_cons] at h
    have hrest := size_le_foldl_insert (lexicon.insert e) es
    have hfirst := size_insert lexicon e
    have hold : lexicon.contains e = true := by
      by_contra hnew
      rw [if_neg hnew] at hfirst
      omega
    rw [insert_of_contains hold] at h
    exact List.forall_mem_cons.2 ⟨hold, ih h⟩

theorem mem_of_mem_foldl_insert {es : List Entry} (h : x ∈ (es.foldl insert lexicon).entries) :
    x ∈ lexicon.entries ∨ x ∈ es := by
  induction es generalizing lexicon with
  | nil => exact Or.inl h
  | cons e es ih =>
    rcases ih h with h | h
    · rcases (mem_entries_insert lexicon e x).1 h with h | ⟨rfl, -⟩
      · exact Or.inl h
      · exact Or.inr List.mem_cons_self
    · exact Or.inr (List.mem_cons_of_mem e h)

/-- Whether a lexicon keeps the entries of another one, in their order both among those of their
tokens and among all, and has besides them only new ones, all of one origin. -/
structure Grown (origin : Origin) (old new : Lexicon) : Prop where
  get : ∀ tokens, old.get tokens <+: new.get tokens
  entries : old.entries.Sublist new.entries
  fresh : ∀ e ∈ new.entries, e ∈ old.entries ∨ e.origin = origin ∧ old.contains e = false

theorem grown_refl (origin : Origin) (lexicon : Lexicon) : Grown origin lexicon lexicon :=
  ⟨fun _ => List.prefix_refl _, List.Sublist.refl _, fun _ => Or.inl⟩

theorem Grown.contains {origin : Origin} (h : Grown origin lexicon lexicon')
    (hx : lexicon.contains x = true) : lexicon'.contains x = true := by
  obtain ⟨y, hy, hsame⟩ := List.any_eq_true.1 hx
  exact List.any_eq_true.2 ⟨y, (h.get _).subset hy, hsame⟩

theorem Grown.trans {origin : Origin} (h : Grown origin lexicon lexicon')
    (h' : Grown origin lexicon' lexicon'') : Grown origin lexicon lexicon'' where
  get tokens := (h.get tokens).trans (h'.get tokens)
  entries := h.entries.trans h'.entries
  fresh e he := by
    rcases h'.fresh e he with hold | ⟨horigin, hnew⟩
    · exact h.fresh e hold
    · refine Or.inr ⟨horigin, Bool.eq_false_iff.2 fun hcontains => ?_⟩
      rw [h.contains hcontains] at hnew
      cases hnew

theorem grown_insert (lexicon : Lexicon) (e : Entry) :
    Grown e.origin lexicon (lexicon.insert e) := by
  cases h : lexicon.contains e with
  | true =>
    rw [insert_of_contains h]
    exact grown_refl _ _
  | false =>
    obtain ⟨before, behind, hentries, hinsert⟩ := exists_entries_insert h
    refine ⟨fun tokens => ?_, ?_, ?_⟩
    · rw [get_insert]
      split
      · rw [appendNew]
        split
        · exact List.prefix_refl _
        · exact List.prefix_append _ _
      · exact List.prefix_refl _
    · rw [hentries, hinsert]
      exact (List.sublist_cons_self e behind).append_left before
    · intro y hy
      rw [hinsert, List.mem_append, List.mem_cons] at hy
      rw [hentries, List.mem_append]
      rcases hy with hy | rfl | hy
      · exact Or.inl (Or.inl hy)
      · exact Or.inr ⟨rfl, h⟩
      · exact Or.inl (Or.inr hy)

theorem exists_of_mem_keys {tokens : List String} (h : tokens ∈ lexicon.groups.map (·.1)) :
    ∃ e ∈ lexicon.entries, e.tokens = tokens := by
  obtain ⟨group, hgroup, rfl⟩ := List.mem_map.1 h
  obtain ⟨e, he⟩ := List.exists_mem_of_ne_nil _ (lexicon.tallied.filled group hgroup)
  exact ⟨e, List.mem_flatMap.2 ⟨group, hgroup, he⟩, lexicon.filed.own group hgroup e he⟩

/-- Entries that are added for one token sequence after the other stand in the order of these
sequences, and are added once. -/
theorem entries_foldl_insert_flatMap {f : List String → List Entry}
    (hf : ∀ tokens, ∀ e ∈ f tokens, e.tokens = tokens) (sequences : List (List String)) :
    ((sequences.flatMap f).foldl insert .empty).entries =
      (distinct (· == ·) sequences).flatMap fun tokens => distinct Entry.same (f tokens) := by
  induction sequences using List.reverseRecOn with
  | nil => rfl
  | append_singleton sequences tokens ih =>
    rw [List.flatMap_append, List.flatMap_singleton, List.foldl_append, distinct_concat, appendNew]
    cases hany : (distinct (· == ·) sequences).any fun y => y == tokens with
    | true =>
      rw [if_pos rfl, ← ih, foldl_insert_of_contains]
      intro e he
      obtain ⟨y, hy, heq⟩ := List.any_eq_true.1 hany
      rw [contains_foldl_insert]
      refine Or.inr ⟨e, List.mem_flatMap.2 ⟨y, mem_of_mem_distinct hy, ?_⟩, Entry.same_refl e⟩
      rwa [beq_iff_eq.1 heq]
    | false =>
      rw [if_neg Bool.false_ne_true, List.flatMap_append, List.flatMap_singleton, ← ih]
      refine entries_foldl_insert_of_fresh (hf tokens) fun hkey => ?_
      obtain ⟨e, he, rfl⟩ := exists_of_mem_keys hkey
      obtain ⟨y, hy, hmem⟩ :=
        List.mem_flatMap.1 ((mem_of_mem_foldl_insert he).resolve_left List.not_mem_nil)
      obtain ⟨z, hz, heq⟩ : ∃ z ∈ distinct (· == ·) sequences, (z == y) = true :=
        exists_distinct beq_self_eq_true hy
      rw [List.any_eq_false] at hany
      exact hany z hz (hf y e hmem ▸ heq)

end Lexicon

end Categorial
