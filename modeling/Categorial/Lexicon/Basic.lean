import Categorial.Collection.Distinct
import Categorial.Lexicon.Entry
import Categorial.Text.Layout

/-!
Lexicons: the entries of each token sequence, in the order in which they were added, the sequences
in the order in which they first got an entry. The number of entries and the length of the longest
one are counted as entries come and go. Main statements: the counts stay right; a new entry goes
behind the others of its tokens, and adding one that is present changes nothing.
-/

namespace Categorial

/-- Whether entries are filed in order: each under its own tokens, and neither a token sequence nor
an entry twice. -/
structure Filed (groups : List (List String × List Entry)) : Prop where
  own : ∀ group ∈ groups, ∀ e ∈ group.2, e.tokens = group.1
  apart : ∀ group ∈ groups, group.2.Pairwise fun a b => a.same b = false
  distinct : (groups.map (·.1)).Nodup

/-- Whether some numbers are those of filed entries and of the tokens of the longest one. A token
sequence is filed only with entries, or it would count for the longest one. -/
structure Tallied (groups : List (List String × List Entry)) (size longest : Nat) : Prop where
  filled : ∀ group ∈ groups, group.2 ≠ []
  size_eq : size = (groups.flatMap (·.2)).length
  bound : ∀ tokens ∈ groups.map (·.1), tokens.length ≤ longest
  reached : longest = 0 ∨ ∃ tokens ∈ groups.map (·.1), tokens.length = longest

/-- A lexicon: its token sequences, each with its entries, the number of entries, and the number of
tokens of the longest one. -/
structure Lexicon where
  groups : List (List String × List Entry)
  size : Nat
  maxEntryLength : Nat
  filed : Filed groups
  tallied : Tallied groups size maxEntryLength

namespace Lexicon

def empty : Lexicon where
  groups := []
  size := 0
  maxEntryLength := 0
  filed := ⟨by simp, by simp, List.nodup_nil⟩
  tallied := ⟨by simp, rfl, by simp, Or.inl rfl⟩

/-- The entries of a token sequence. -/
def get (lexicon : Lexicon) (tokens : List String) : List Entry :=
  (lexicon.groups.lookup tokens).getD []

def contains (lexicon : Lexicon) (e : Entry) : Bool :=
  (lexicon.get e.tokens).any fun e' => e'.same e

/-- Puts an entry behind the others of its tokens. -/
def insertGroup (e : Entry) : List (List String × List Entry) → List (List String × List Entry)
  | [] => [(e.tokens, [e])]
  | (tokens, entries) :: groups =>
    if e.tokens = tokens then (tokens, entries ++ [e]) :: groups
    else (tokens, entries) :: insertGroup e groups

theorem mem_of_lookup {groups : List (List String × List Entry)} {tokens : List String}
    {entries : List Entry} (h : groups.lookup tokens = some entries) :
    (tokens, entries) ∈ groups := by
  obtain ⟨before, behind, rfl, -⟩ := List.lookup_eq_some_iff.1 h
  simp

theorem mem_insertGroup {e : Entry} {groups : List (List String × List Entry)}
    {group : List String × List Entry} (h : group ∈ insertGroup e groups) :
    group ∈ groups ∨ group = (e.tokens, (groups.lookup e.tokens).getD [] ++ [e]) := by
  induction groups with
  | nil => exact Or.inr (by simpa [insertGroup] using h)
  | cons first groups ih =>
    obtain ⟨tokens, entries⟩ := first
    rw [insertGroup] at h
    by_cases ht : e.tokens = tokens
    · rw [if_pos ht] at h
      rcases List.mem_cons.1 h with rfl | h
      · exact Or.inr (by simp [ht])
      · exact Or.inl (List.mem_cons_of_mem _ h)
    · have hb : (e.tokens == tokens) = false := by simpa using ht
      rw [if_neg ht] at h
      rcases List.mem_cons.1 h with rfl | h
      · exact Or.inl List.mem_cons_self
      · exact (ih h).imp (List.mem_cons_of_mem _) (by simp [List.lookup_cons, hb])

theorem keys_insertGroup (e : Entry) (groups : List (List String × List Entry)) :
    (insertGroup e groups).map (·.1) =
      if e.tokens ∈ groups.map (·.1) then groups.map (·.1) else groups.map (·.1) ++ [e.tokens] := by
  induction groups with
  | nil => simp [insertGroup]
  | cons group groups ih =>
    rw [insertGroup]
    by_cases h : e.tokens = group.1
    · simp [h]
    · rw [if_neg h, List.map_cons, ih]
      by_cases hm : e.tokens ∈ groups.map (·.1)
      · rw [if_pos hm, if_pos (by simp [hm])]
        rfl
      · rw [if_neg hm, if_neg (by simp [h, hm])]
        rfl

/-- Entries stay filed in order when one is added that is not among those of its tokens. -/
theorem filed_insertGroup {e : Entry} {groups : List (List String × List Entry)}
    (h : Filed groups) (he : ∀ e' ∈ (groups.lookup e.tokens).getD [], e'.same e = false) :
    Filed (insertGroup e groups) where
  own group hg a ha := by
    rcases mem_insertGroup hg with hg | rfl
    · exact h.own group hg a ha
    · rcases List.mem_append.1 ha with ha | ha
      · cases hl : groups.lookup e.tokens with
        | none => simp [hl] at ha
        | some entries => exact h.own _ (mem_of_lookup hl) a (by simpa [hl] using ha)
      · rw [List.mem_singleton.1 ha]
  apart group hg := by
    rcases mem_insertGroup hg with hg | rfl
    · exact h.apart group hg
    · refine List.pairwise_append.2 ⟨?_, List.pairwise_singleton _ _, ?_⟩
      · cases hl : groups.lookup e.tokens with
        | none => simp
        | some entries => exact h.apart _ (mem_of_lookup hl)
      · intro a ha b hb
        rw [List.mem_singleton.1 hb]
        exact he a ha
  distinct := by
    rw [keys_insertGroup]
    split
    · exact h.distinct
    · rename_i hm
      refine List.nodup_append.2 ⟨h.distinct, by simp, ?_⟩
      rintro a ha b hb rfl
      exact hm (List.mem_singleton.1 hb ▸ ha)

/-- Entries stay filed in order when groups are left out. -/
theorem filed_filter {groups : List (List String × List Entry)} (h : Filed groups)
    (keep : List String × List Entry → Bool) : Filed (groups.filter keep) where
  own group hg := h.own group (List.mem_filter.1 hg).1
  apart group hg := h.apart group (List.mem_filter.1 hg).1
  distinct := h.distinct.sublist (List.filter_sublist.map _)

theorem length_insertGroup (e : Entry) (groups : List (List String × List Entry)) :
    ((insertGroup e groups).flatMap (·.2)).length = (groups.flatMap (·.2)).length + 1 := by
  induction groups with
  | nil => rfl
  | cons group groups ih =>
    rw [insertGroup]
    split
    · simp only [List.flatMap_cons, List.length_append, List.length_singleton]
      omega
    · simp only [List.flatMap_cons, List.length_append, ih]
      omega

theorem mem_keys_insertGroup (e : Entry) (groups : List (List String × List Entry))
    (tokens : List String) : tokens ∈ (insertGroup e groups).map (·.1) ↔
      tokens ∈ groups.map (·.1) ∨ tokens = e.tokens := by
  rw [keys_insertGroup]
  split
  · rename_i h
    exact ⟨Or.inl, fun hor => hor.elim id fun heq => heq ▸ h⟩
  · rw [List.mem_append, List.mem_singleton]

/-- An entry more is one more to count, and may be the longest one. -/
theorem tallied_insertGroup {groups : List (List String × List Entry)} {size longest : Nat}
    (h : Tallied groups size longest) (e : Entry) :
    Tallied (insertGroup e groups) (size + 1) (max longest e.tokens.length) where
  filled group hg := by
    rcases mem_insertGroup hg with hg | rfl
    · exact h.filled group hg
    · simp
  size_eq := by rw [length_insertGroup, h.size_eq]
  bound tokens ht := by
    rcases (mem_keys_insertGroup e groups tokens).1 ht with ht | rfl
    · exact Nat.le_trans (h.bound tokens ht) (Nat.le_max_left _ _)
    · exact Nat.le_max_right _ _
  reached := by
    rcases Nat.le_total longest e.tokens.length with hle | hle
    · exact Or.inr ⟨e.tokens, (mem_keys_insertGroup e groups _).2 (Or.inr rfl),
        (Nat.max_eq_right hle).symm⟩
    · rw [Nat.max_eq_left hle]
      refine h.reached.imp id ?_
      rintro ⟨tokens, ht, hlength⟩
      exact ⟨tokens, (mem_keys_insertGroup e groups _).2 (Or.inl ht), hlength⟩

/-- The length of the longest of some token sequences. -/
def longest (keys : List (List String)) : Nat := ((keys.map List.length).max?).getD 0

theorem length_le_longest {keys : List (List String)} {tokens : List String}
    (h : tokens ∈ keys) : tokens.length ≤ longest keys := by
  rw [longest]
  cases hmax : (keys.map List.length).max? with
  | none =>
    rw [List.max?_eq_none_iff, List.map_eq_nil_iff] at hmax
    exact absurd (hmax ▸ h) List.not_mem_nil
  | some n => exact (List.max?_eq_some_iff.1 hmax).2 _ (List.mem_map_of_mem h)

theorem longest_reached (keys : List (List String)) :
    longest keys = 0 ∨ ∃ tokens ∈ keys, tokens.length = longest keys := by
  rw [longest]
  cases hmax : (keys.map List.length).max? with
  | none => exact Or.inl rfl
  | some n => exact Or.inr (List.mem_map.1 (List.max?_eq_some_iff.1 hmax).1)

/-- The groups of other tokens. -/
def removeGroup (tokens : List String) (groups : List (List String × List Entry)) :
    List (List String × List Entry) :=
  groups.filter fun group => group.1 != tokens

theorem removeGroup_of_not_mem {tokens : List String} {groups : List (List String × List Entry)}
    (h : tokens ∉ groups.map (·.1)) : removeGroup tokens groups = groups := by
  rw [removeGroup, List.filter_eq_self]
  intro group hg
  rw [bne_iff_ne]
  rintro rfl
  exact h (List.mem_map_of_mem hg)

theorem length_removeGroup {tokens : List String} {entries : List Entry}
    {groups : List (List String × List Entry)} (hdistinct : (groups.map (·.1)).Nodup)
    (h : groups.lookup tokens = some entries) : (groups.flatMap (·.2)).length =
      ((removeGroup tokens groups).flatMap (·.2)).length + entries.length := by
  induction groups with
  | nil => simp at h
  | cons group groups ih =>
    obtain ⟨key, own⟩ := group
    rw [List.map_cons, List.nodup_cons] at hdistinct
    by_cases hkey : key = tokens
    · subst hkey
      rw [List.lookup_cons_self, Option.some.injEq] at h
      have hrest := removeGroup_of_not_mem hdistinct.1
      rw [removeGroup] at hrest
      rw [removeGroup, List.filter_cons, if_neg (by simp), hrest, ← h, List.flatMap_cons,
        List.length_append, Nat.add_comm]
    · have hne : (tokens == key) = false := beq_false_of_ne (Ne.symm hkey)
      rw [List.lookup_cons, hne] at h
      have hrest := ih hdistinct.2 h
      rw [removeGroup] at hrest
      rw [removeGroup, List.filter_cons, if_pos (by simpa using hkey), List.flatMap_cons,
        List.flatMap_cons, List.length_append, List.length_append, hrest, Nat.add_assoc]

/-- Without a group its entries are no longer counted, and the longest one is looked for anew. -/
theorem tallied_removeGroup {groups : List (List String × List Entry)} {size n : Nat}
    {tokens : List String} {entries : List Entry} (hfiled : Filed groups)
    (h : Tallied groups size n) (hgroup : groups.lookup tokens = some entries) :
    Tallied (removeGroup tokens groups) (size - entries.length)
      (longest ((removeGroup tokens groups).map (·.1))) where
  filled group hg := h.filled group (List.mem_filter.1 hg).1
  size_eq := by
    have hlength := length_removeGroup hfiled.distinct hgroup
    have hsize := h.size_eq
    omega
  bound _ ht := length_le_longest ht
  reached := longest_reached _

/-- Adds an entry, unless the lexicon has it, and tells whether it was new. -/
def add (lexicon : Lexicon) (e : Entry) : Bool × Lexicon :=
  if h : lexicon.contains e then (false, lexicon)
  else
    (true,
      { groups := insertGroup e lexicon.groups
        size := lexicon.size + 1
        maxEntryLength := max lexicon.maxEntryLength e.tokens.length
        filed := filed_insertGroup lexicon.filed (by simpa [contains, get] using h)
        tallied := tallied_insertGroup lexicon.tallied e })

def insert (lexicon : Lexicon) (e : Entry) : Lexicon := (lexicon.add e).2

/-- All entries, grouped by their tokens. -/
def entries (lexicon : Lexicon) : List Entry := lexicon.groups.flatMap (·.2)

/-- Adds entries one by one, and counts the new ones. -/
def addAll (lexicon : Lexicon) (entries : List Entry) : Nat × Lexicon :=
  entries.foldl (fun acc e =>
    let added := acc.2.add e
    (if added.1 then acc.1 + 1 else acc.1, added.2)) (0, lexicon)

def ofList (entries : List Entry) : Lexicon := (empty.addAll entries).2

/-- Removes all entries of a token sequence. -/
def clear (lexicon : Lexicon) (tokens : List String) : Lexicon :=
  match h : lexicon.groups.lookup tokens with
  | none => lexicon
  | some entries =>
    { groups := removeGroup tokens lexicon.groups
      size := lexicon.size - entries.length
      maxEntryLength := longest ((removeGroup tokens lexicon.groups).map (·.1))
      filed := filed_filter lexicon.filed _
      tallied := tallied_removeGroup lexicon.filed lexicon.tallied h }

def text (lexicon : Lexicon) : String := "Lexicon(size=" ++ toString lexicon.size ++ ")"

theorem lookup_insertGroup (e : Entry) (groups : List (List String × List Entry)) :
    (insertGroup e groups).lookup e.tokens = some ((groups.lookup e.tokens).getD [] ++ [e]) := by
  induction groups with
  | nil => simp [insertGroup]
  | cons group groups ih =>
    obtain ⟨tokens, entries⟩ := group
    by_cases h : e.tokens = tokens
    · simp [insertGroup, h]
    · have hb : (e.tokens == tokens) = false := by simpa using h
      simp [insertGroup, h, List.lookup_cons, hb, ih]

/-- A new entry goes behind the others of its tokens. -/
theorem get_insert_of_not_contains {lexicon : Lexicon} {e : Entry}
    (h : lexicon.contains e = false) :
    (lexicon.insert e).get e.tokens = lexicon.get e.tokens ++ [e] := by
  simp [insert, add, h, get, lookup_insertGroup]

/-- An entry that is present is not added again. -/
theorem insert_of_contains {lexicon : Lexicon} {e : Entry} (h : lexicon.contains e = true) :
    lexicon.insert e = lexicon := by
  simp [insert, add, h]

end Lexicon

end Categorial
