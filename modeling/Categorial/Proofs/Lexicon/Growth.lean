import Mathlib.Data.List.Nodup
import Categorial.Proofs.Collection.Distinct
import Categorial.Proofs.Lexicon.View

/-!
Lexicons that entries are added to. Main statements: the entries of some tokens are those entries of
the lexicon that have these tokens; an added entry goes behind the others of its tokens, unless one
of them is the same; a union of two lexicons shows the entries of the first one, with those of the
second one added; the entries of a lexicon are those of its token sequences, one after the other.
-/

namespace Categorial

namespace Lexicon

/-- The entries of some tokens are those entries of the lexicon that have these tokens. -/
theorem get_eq_filter (lexicon : Lexicon) (tokens : List String) :
    lexicon.get tokens = lexicon.entries.filter fun e => e.tokens = tokens := by
  have hown := lexicon.filed.own
  have hdistinct := lexicon.filed.distinct
  rw [get, entries]
  generalize lexicon.groups = groups at hown hdistinct
  induction groups with
  | nil => rfl
  | cons group groups ih =>
    obtain ⟨t, es⟩ := group
    rw [List.map_cons, List.nodup_cons] at hdistinct
    have hrest := ih (fun group hgroup => hown group (List.mem_cons_of_mem _ hgroup)) hdistinct.2
    have hes : ∀ e ∈ es, e.tokens = t := hown (t, es) List.mem_cons_self
    rw [List.flatMap_cons, List.filter_append, ← hrest, List.lookup_cons]
    by_cases ht : tokens = t
    · subst ht
      have hall : es.filter (fun e => e.tokens = tokens) = es := by
        rw [List.filter_eq_self]
        intro e he
        exact decide_eq_true (hes e he)
      have hnone : groups.lookup tokens = none := by
        rw [List.lookup_eq_none_iff]
        intro group hgroup
        rw [bne_iff_ne]
        rintro rfl
        exact hdistinct.1 (List.mem_map.2 ⟨group, hgroup, rfl⟩)
      rw [hall, hnone, beq_self_eq_true]
      exact (List.append_nil es).symm
    · have hnone : es.filter (fun e => e.tokens = tokens) = [] := by
        rw [List.filter_eq_nil_iff]
        intro e he
        rw [hes e he, decide_eq_true_eq]
        exact fun heq => ht heq.symm
      rw [hnone, beq_false_of_ne ht, List.nil_append]

theorem lookup_insertGroup_of_ne {e : Entry} {tokens : List String} (h : e.tokens ≠ tokens)
    (groups : List (List String × List Entry)) :
    (insertGroup e groups).lookup tokens = groups.lookup tokens := by
  induction groups with
  | nil => rw [insertGroup, List.lookup_cons, beq_false_of_ne (Ne.symm h)]
  | cons group groups ih =>
    obtain ⟨t, es⟩ := group
    rw [insertGroup]
    split
    · rename_i ht
      rw [List.lookup_cons, List.lookup_cons, beq_false_of_ne fun heq => h (ht.trans heq.symm)]
    · rw [List.lookup_cons, List.lookup_cons, ih]

/-- An added entry goes behind the others of its tokens, unless one of them is the same. -/
theorem get_insert (lexicon : Lexicon) (e : Entry) (tokens : List String) :
    (lexicon.insert e).get tokens =
      if e.tokens = tokens then appendNew Entry.same (lexicon.get tokens) e
      else lexicon.get tokens := by
  by_cases hnew : lexicon.contains e = true
  · rw [insert_of_contains hnew]
    split
    · rename_i htokens
      rw [appendNew, if_pos]
      rwa [contains, htokens] at hnew
    · rfl
  · rw [Bool.not_eq_true] at hnew
    split
    · rename_i htokens
      subst htokens
      rw [get_insert_of_not_contains hnew, appendNew, if_neg]
      rw [contains] at hnew
      rw [hnew]
      exact Bool.false_ne_true
    · rename_i htokens
      simp [insert, add, hnew, get, lookup_insertGroup_of_ne htokens]

/-- Entries that are added one by one go behind the others of their tokens. -/
theorem get_foldl_insert (lexicon : Lexicon) (es : List Entry) (tokens : List String) :
    (es.foldl insert lexicon).get tokens =
      (es.filter fun e => e.tokens = tokens).foldl (appendNew Entry.same) (lexicon.get tokens) := by
  induction es generalizing lexicon with
  | nil => rfl
  | cons e es ih =>
    rw [List.foldl_cons, ih, get_insert, List.filter_cons]
    by_cases h : e.tokens = tokens
    · rw [if_pos h, if_pos (decide_eq_true h), List.foldl_cons]
    · rw [if_neg h, if_neg (by simpa using h)]

theorem addAll_eq (lexicon : Lexicon) (es : List Entry) :
    (lexicon.addAll es).2 = es.foldl insert lexicon := by
  rw [addAll]
  generalize 0 = n
  induction es generalizing lexicon n with
  | nil => rfl
  | cons e es ih => exact ih _ _

/-- A lexicon of some entries shows the first ones of those of a token sequence. -/
theorem get_ofList (es : List Entry) (tokens : List String) :
    (ofList es).get tokens = distinct Entry.same (es.filter fun e => e.tokens = tokens) := by
  rw [ofList, addAll_eq, get_foldl_insert]
  rfl

/-- A union of two lexicons shows the entries of the first one, with those of the second one
added. -/
theorem get_union (lexicon extra : Lexicon) (tokens : List String) :
    (LexiconView.union [.single lexicon, .single extra]).get tokens =
      (extra.entries.foldl insert lexicon).get tokens := by
  rw [get_foldl_insert, ← get_eq_filter, LexiconView.get, LexiconView.distinctEntries, distinct]
  simp only [LexiconView.getAll, LexiconView.get, List.append_nil, List.foldl_append]
  rw [← distinct, distinct_of_pairwise (pairwise_get lexicon tokens)]

theorem get_of_mem_groups {lexicon : Lexicon} {group : List String × List Entry}
    (h : group ∈ lexicon.groups) : lexicon.get group.1 = group.2 := by
  obtain ⟨before, behind, hgroups⟩ := List.append_of_mem h
  have hdistinct := lexicon.filed.distinct
  rw [hgroups, List.map_append, List.map_cons, List.nodup_append'] at hdistinct
  have hlookup : lexicon.groups.lookup group.1 = some group.2 := by
    refine List.lookup_eq_some_iff.2 ⟨before, behind, hgroups, fun other hother => ?_⟩
    rw [bne_iff_ne]
    exact fun heq => hdistinct.2.2 (List.mem_map_of_mem hother) (heq ▸ List.mem_cons_self)
  rw [get, hlookup]
  rfl

/-- The entries of a lexicon are those of its token sequences, one after the other. -/
theorem entries_eq_flatMap (lexicon : Lexicon) :
    lexicon.entries = (lexicon.groups.map (·.1)).flatMap lexicon.get := by
  rw [entries, List.flatMap_map]
  exact List.flatMap_congr fun group hgroup => (get_of_mem_groups hgroup).symm

theorem keys_insert (lexicon : Lexicon) (e : Entry) : (lexicon.insert e).groups.map (·.1) =
    appendNew (· == ·) (lexicon.groups.map (·.1)) e.tokens := by
  have hany : ∀ keys : List (List String),
      (keys.any fun tokens => tokens == e.tokens) = decide (e.tokens ∈ keys) := by
    intro keys
    rw [Bool.eq_iff_iff, List.any_eq_true, decide_eq_true_iff]
    constructor
    · rintro ⟨tokens, htokens, heq⟩
      exact beq_iff_eq.1 heq ▸ htokens
    · exact fun h => ⟨_, h, beq_self_eq_true _⟩
  rw [appendNew, hany]
  cases hold : lexicon.contains e with
  | true =>
    obtain ⟨e', he', -⟩ := List.any_eq_true.1 hold
    obtain ⟨entries, hgroup, -⟩ := exists_group_of_mem_get he'
    rw [insert_of_contains hold, if_pos]
    exact decide_eq_true (List.mem_map_of_mem (f := Prod.fst) hgroup)
  | false =>
    simp only [insert, add, hold, Bool.false_eq_true, dif_neg, not_false_eq_true, decide_eq_true_eq]
    exact keys_insertGroup e lexicon.groups

theorem keys_foldl_insert (lexicon : Lexicon) (es : List Entry) :
    (es.foldl insert lexicon).groups.map (·.1) =
      (es.map Entry.tokens).foldl (appendNew (· == ·)) (lexicon.groups.map (·.1)) := by
  induction es generalizing lexicon with
  | nil => rfl
  | cons e es ih => rw [List.foldl_cons, ih, keys_insert, List.map_cons, List.foldl_cons]

/-- Entries of new tokens go behind all others. -/
theorem entries_foldl_insert_of_fresh {lexicon : Lexicon} {tokens : List String} {es : List Entry}
    (hes : ∀ e ∈ es, e.tokens = tokens) (hfresh : tokens ∉ lexicon.groups.map (·.1)) :
    (es.foldl insert lexicon).entries = lexicon.entries ++ distinct Entry.same es := by
  have hall : es.filter (fun e => e.tokens = tokens) = es := by
    rw [List.filter_eq_self]
    exact fun e he => decide_eq_true (hes e he)
  have hnone : lexicon.get tokens = [] := by
    rw [List.eq_nil_iff_forall_not_mem]
    intro e he
    obtain ⟨entries, hgroup, -⟩ := exists_group_of_mem_get he
    exact hfresh (List.mem_map_of_mem (f := Prod.fst) hgroup)
  have hown : (es.foldl insert lexicon).get tokens = distinct Entry.same es := by
    rw [get_foldl_insert, hall, hnone, distinct]
  have hothers : ∀ t ∈ lexicon.groups.map (·.1),
      (es.foldl insert lexicon).get t = lexicon.get t := by
    intro t ht
    have hother : es.filter (fun e => e.tokens = t) = [] := by
      rw [List.filter_eq_nil_iff]
      intro e he
      rw [decide_eq_true_eq, hes e he]
      rintro rfl
      exact hfresh ht
    rw [get_foldl_insert, hother, List.foldl_nil]
  cases es with
  | nil => exact (List.append_nil _).symm
  | cons e es =>
    have hkeys : ((e :: es).foldl insert lexicon).groups.map (·.1) =
        lexicon.groups.map (·.1) ++ [tokens] := by
      have hknown : ∀ t ∈ es.map Entry.tokens,
          (lexicon.groups.map (·.1) ++ [tokens]).any (fun t' => t' == t) = true := by
        intro t ht
        obtain ⟨e', he', rfl⟩ := List.mem_map.1 ht
        rw [hes e' (List.mem_cons_of_mem _ he')]
        simp
      have hnew : (lexicon.groups.map (·.1)).any (fun t => t == tokens) = false := by
        rw [List.any_eq_false]
        intro t ht heq
        exact hfresh (beq_iff_eq.1 heq ▸ ht)
      rw [keys_foldl_insert, List.map_cons, List.foldl_cons, hes e List.mem_cons_self, appendNew,
        hnew, if_neg Bool.false_ne_true,
        ← foldl_appendNew_filter (fun _ => true) fun t ht _ => hknown t ht]
      simp
    rw [entries_eq_flatMap, hkeys, List.flatMap_append, List.flatMap_congr hothers,
      List.flatMap_singleton, hown, entries_eq_flatMap lexicon]

end Lexicon

end Categorial
