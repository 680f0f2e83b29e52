import Categorial.Proofs.Lexicon.Addition

/-!
Lexicons that are made anew of their entries. Main statements: a lexicon is told by its entries in
their order, and adding them one by one to the lexicon without entries gives the lexicon back.
-/

namespace Categorial

theorem Tallied.longest_le {groups : List (List String × List Entry)} {size size' n n' : Nat}
    (h : Tallied groups size n) (h' : Tallied groups size' n') : n ≤ n' := by
  rcases h.reached with rfl | ⟨tokens, htokens, rfl⟩
  · exact Nat.zero_le n'
  · exact h'.bound tokens htokens

namespace Lexicon

/-- The number of entries and the longest one are told by the groups. -/
theorem eq_of_groups {lexicon lexicon' : Lexicon} (h : lexicon.groups = lexicon'.groups) :
    lexicon = lexicon' := by
  obtain ⟨groups, size, n, hfiled, htallied⟩ := lexicon
  obtain ⟨groups', size', n', hfiled', htallied'⟩ := lexicon'
  obtain rfl : groups = groups' := h
  obtain rfl : size = size' := htallied.size_eq.trans htallied'.size_eq.symm
  obtain rfl : n = n' :=
    Nat.le_antisymm (htallied.longest_le htallied') (htallied'.longest_le htallied)
  rfl

/-- Each token sequence is found once among the tokens of the entries, at its first one. -/
theorem foldl_tokens (kept : List (List String)) {groups : List (List String × List Entry)}
    (hown : ∀ group ∈ groups, ∀ e ∈ group.2, e.tokens = group.1)
    (hfilled : ∀ group ∈ groups, group.2 ≠ []) (hdistinct : (kept ++ groups.map (·.1)).Nodup) :
    ((groups.flatMap (·.2)).map Entry.tokens).foldl (appendNew (· == ·)) kept =
      kept ++ groups.map (·.1) := by
  induction groups generalizing kept with
  | nil => exact (List.append_nil kept).symm
  | cons group groups ih =>
    obtain ⟨tokens, entries⟩ := group
    obtain ⟨e, es, rfl⟩ := List.exists_cons_of_ne_nil (hfilled _ List.mem_cons_self)
    have htokens : ∀ x ∈ e :: es, x.tokens = tokens := hown _ List.mem_cons_self
    have hnew : kept.any (fun t => t == tokens) = false := by
      rw [List.any_eq_false]
      intro t ht heq
      rw [beq_iff_eq] at heq
      exact (List.nodup_append'.1 hdistinct).2.2 ht (heq ▸ List.mem_cons_self)
    have hknown : ∀ t ∈ es.map Entry.tokens, (kept ++ [tokens]).any (fun y => y == t) = true := by
      intro t ht
      obtain ⟨x, hx, rfl⟩ := List.mem_map.1 ht
      rw [htokens x (List.mem_cons_of_mem e hx)]
      simp
    have hgroup : ((e :: es).map Entry.tokens).foldl (appendNew (· == ·)) kept =
        kept ++ [tokens] := by
      have hfold := foldl_appendNew_filter (fun _ => true) fun t ht _ => hknown t ht
      rw [List.map_cons, List.foldl_cons, htokens e List.mem_cons_self, appendNew, hnew,
        if_neg Bool.false_ne_true, ← hfold]
      simp
    rw [List.map_cons, List.append_cons] at hdistinct
    have hrest := ih _ (fun group hg => hown group (List.mem_cons_of_mem _ hg))
      (fun group hg => hfilled group (List.mem_cons_of_mem _ hg)) hdistinct
    rw [List.flatMap_cons, List.map_append, List.foldl_append, hgroup, hrest, List.map_cons,
      ← List.append_cons]

/-- The token sequences are those of the entries, in the order of their first ones. -/
theorem keys_eq_distinct (lexicon : Lexicon) :
    lexicon.groups.map (·.1) = distinct (· == ·) (lexicon.entries.map Entry.tokens) := by
  exact (foldl_tokens [] lexicon.filed.own lexicon.tallied.filled lexicon.filed.distinct).symm

theorem groups_eq_map (lexicon : Lexicon) :
    lexicon.groups = (lexicon.groups.map (·.1)).map fun tokens => (tokens, lexicon.get tokens) := by
  rw [List.map_map]
  refine (List.map_id _).symm.trans (List.map_congr_left fun group hgroup => ?_)
  exact Prod.ext rfl (get_of_mem_groups hgroup).symm

/-- A lexicon is told by its entries in their order. -/
theorem eq_of_entries {lexicon lexicon' : Lexicon} (h : lexicon.entries = lexicon'.entries) :
    lexicon = lexicon' := by
  have hget : lexicon.get = lexicon'.get := by
    funext tokens
    rw [get_eq_filter, get_eq_filter, h]
  refine eq_of_groups ?_
  rw [groups_eq_map lexicon, groups_eq_map lexicon', keys_eq_distinct, keys_eq_distinct, hget, h]

/-- The entries of a lexicon, added one by one, make the lexicon. -/
theorem foldl_insert_entries (lexicon : Lexicon) :
    lexicon.entries.foldl insert .empty = lexicon := by
  have hkeys : distinct (· == ·) (lexicon.groups.map (·.1)) = lexicon.groups.map (·.1) := by
    refine distinct_of_pairwise (List.Pairwise.imp (fun h => ?_) lexicon.filed.distinct)
    exact beq_false_of_ne h
  refine eq_of_entries ?_
  rw [entries_eq_flatMap lexicon, entries_foldl_insert_flatMap fun tokens e he =>
    tokens_of_mem_get he, hkeys]
  exact List.flatMap_congr fun tokens _ => distinct_of_pairwise (lexicon.pairwise_get tokens)

end Lexicon

end Categorial
