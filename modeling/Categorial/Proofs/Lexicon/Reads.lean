import Categorial.Proofs.Collection.Distinct
import Categorial.Proofs.Lexicon.Addition
import Categorial.Proofs.Parsing.Placements

/-!
Reading lexicons and unions of lexicons. Whatever was added and removed before, all that can be read
is told by the entries alone. Main statement: no two entries are the same; whether an entry is
there, how many there are, which have some tokens and how many tokens the longest has is what a look
at all entries gives; an entry in several lexicons is the one of the first; and a parse, which looks
up no more tokens than the longest entry has, places what it would place if it looked up all spans.
-/

namespace Categorial

namespace Lexicon

/-- No two entries are the same, for those of different tokens differ in their tokens. -/
theorem pairwise_entries (lexicon : Lexicon) :
    lexicon.entries.Pairwise fun a b => a.same b = false := by
  rw [entries, List.pairwise_flatMap]
  refine ⟨lexicon.filed.apart, ?_⟩
  have hkeys := List.pairwise_map.1 lexicon.filed.distinct
  refine hkeys.imp_of_mem ?_
  intro group group' hg hg' hne a ha b hb
  rw [Bool.eq_false_iff]
  intro hsame
  refine hne ?_
  rw [← lexicon.filed.own group hg a ha, ← lexicon.filed.own group' hg' b hb]
  exact Entry.tokens_eq_of_same hsame

theorem length_entries (lexicon : Lexicon) : lexicon.size = lexicon.entries.length :=
  lexicon.tallied.size_eq

theorem exists_longest (lexicon : Lexicon) : lexicon.maxEntryLength = 0 ∨
    ∃ e ∈ lexicon.entries, e.tokens.length = lexicon.maxEntryLength := by
  refine lexicon.tallied.reached.imp id ?_
  rintro ⟨tokens, htokens, hlength⟩
  obtain ⟨e, he, rfl⟩ := exists_of_mem_keys htokens
  exact ⟨e, he, hlength⟩

end Lexicon

namespace LexiconView

mutual

/-- The lexicons that a view is made of, from left to right. -/
def lexicons : LexiconView → List Lexicon
  | single lexicon => [lexicon]
  | union parts => lexiconsOfAll parts

/-- The lexicons that some views are made of. -/
def lexiconsOfAll : List LexiconView → List Lexicon
  | [] => []
  | part :: parts => lexicons part ++ lexiconsOfAll parts

end

theorem tokens_of_same {tokens : List String} (a b : Entry) (h : a.same b = true) :
    decide (a.tokens = tokens) = decide (b.tokens = tokens) := by
  rw [Entry.tokens_eq_of_same h]

mutual

/-- The entries of some tokens are those entries of the view that have these tokens. -/
theorem get_eq_filter (tokens : List String) : ∀ view : LexiconView,
    view.get tokens = view.entries.filter fun e => e.tokens = tokens
  | single lexicon => by rw [get, entries, Lexicon.get_eq_filter]
  | union parts => by
    rw [get, entries, distinctEntries, distinctEntries, getAll_eq_filter tokens parts,
      distinct_filter tokens_of_same]

theorem getAll_eq_filter (tokens : List String) : ∀ parts : List LexiconView,
    getAll tokens parts = (entriesOfAll parts).filter fun e => e.tokens = tokens
  | [] => rfl
  | part :: parts => by
    rw [getAll, entriesOfAll, List.filter_append, get_eq_filter tokens part,
      getAll_eq_filter tokens parts]

end

mutual

/-- The entries of a view are those of its lexicons, without repetitions. -/
theorem entries_eq_distinct : ∀ view : LexiconView,
    view.entries = distinct Entry.same (view.lexicons.flatMap Lexicon.entries)
  | single lexicon => by
    rw [entries, lexicons, List.flatMap_singleton, distinct_of_pairwise lexicon.pairwise_entries]
  | union parts => by
    rw [entries, lexicons, distinctEntries, distinct_entriesOfAll parts]

theorem distinct_entriesOfAll : ∀ parts : List LexiconView,
    distinct Entry.same (entriesOfAll parts) =
      distinct Entry.same ((lexiconsOfAll parts).flatMap Lexicon.entries)
  | [] => rfl
  | part :: parts => by
    rw [entriesOfAll, lexiconsOfAll, List.flatMap_append,
      ← distinct_append Entry.same_refl Entry.same_trans, entries_eq_distinct part,
      distinct_distinct, distinct_entriesOfAll parts,
      distinct_append Entry.same_refl Entry.same_trans]

end

/-- The entries of some tokens are those of the lexicons, without repetitions. -/
theorem get_eq_distinct (view : LexiconView) (tokens : List String) :
    view.get tokens = distinct Entry.same (view.lexicons.flatMap fun l => l.get tokens) := by
  rw [get_eq_filter, entries_eq_distinct, ← distinct_filter tokens_of_same, List.filter_flatMap]
  simp only [Lexicon.get_eq_filter]

mutual

/-- An entry is in a view just if it is in one of its lexicons. -/
theorem contains_eq_any (e : Entry) : ∀ view : LexiconView,
    view.contains e = view.lexicons.any fun l => l.contains e
  | single lexicon => by rw [contains, lexicons, List.any_cons, List.any_nil, Bool.or_false]
  | union parts => by rw [contains, lexicons, anyContains_eq_any e parts]

theorem anyContains_eq_any (e : Entry) : ∀ parts : List LexiconView,
    anyContains e parts = (lexiconsOfAll parts).any fun l => l.contains e
  | [] => rfl
  | part :: parts => by
    rw [anyContains, lexiconsOfAll, List.any_append, contains_eq_any e part,
      anyContains_eq_any e parts]

end

theorem pairwise_entries (view : LexiconView) :
    view.entries.Pairwise fun a b => a.same b = false := by
  rw [entries_eq_distinct]
  exact pairwise_distinct Entry.same _

theorem contains_iff_get {view : LexiconView} {e : Entry} :
    view.contains e = true ↔ ∃ x ∈ view.get e.tokens, x.same e = true := by
  rw [← List.any_eq_true, get_eq_distinct, any_distinct Entry.same_refl Entry.same_trans,
    List.any_flatMap, contains_eq_any]
  rfl

theorem contains_iff_entries {view : LexiconView} {e : Entry} :
    view.contains e = true ↔ ∃ x ∈ view.entries, x.same e = true := by
  rw [contains_iff_get, get_eq_filter]
  constructor
  · rintro ⟨x, hx, hsame⟩
    exact ⟨x, (List.mem_filter.1 hx).1, hsame⟩
  · rintro ⟨x, hx, hsame⟩
    have htokens := Entry.tokens_eq_of_same hsame
    exact ⟨x, List.mem_filter.2 ⟨hx, decide_eq_true htokens⟩, hsame⟩

theorem length_entries (view : LexiconView) : view.size = view.entries.length := by
  cases view with
  | single lexicon =>
    rw [size, entries]
    exact lexicon.length_entries
  | union parts => rw [size, entries]

theorem mem_distinct_get {tokens : List String} {e : Entry} (ls : List Lexicon) :
    e ∈ distinct Entry.same (ls.flatMap fun l => l.get tokens) ↔ ∃ before lexicon behind,
      ls = before ++ lexicon :: behind ∧ e ∈ lexicon.get tokens ∧
        ∀ earlier ∈ before, earlier.contains e = false := by
  induction ls with
  | nil => simp [distinct]
  | cons l ls ih =>
    -- An entry is one of the first lexicon, or it is none of them and comes from the others.
    rw [List.flatMap_cons, mem_distinct_append Entry.same_refl Entry.same_trans, ih,
      distinct_of_pairwise (l.pairwise_get tokens)]
    constructor
    · rintro (he | ⟨⟨before, lexicon, behind, rfl, he, hnew⟩, hl⟩)
      · exact ⟨[], l, ls, rfl, he, by simp⟩
      · refine ⟨l :: before, lexicon, behind, rfl, he, List.forall_mem_cons.2 ⟨?_, hnew⟩⟩
        rwa [Lexicon.contains, Lexicon.tokens_of_mem_get he]
    · rintro ⟨before, lexicon, behind, hls, he, hnew⟩
      cases before with
      | nil =>
        obtain ⟨rfl, -⟩ := List.cons.inj hls
        exact Or.inl he
      | cons first before =>
        obtain ⟨rfl, rfl⟩ := List.cons.inj hls
        obtain ⟨hl, hnew⟩ := List.forall_mem_cons.1 hnew
        rw [Lexicon.contains, Lexicon.tokens_of_mem_get he] at hl
        exact Or.inr ⟨⟨before, lexicon, behind, rfl, he, hnew⟩, hl⟩

mutual

/-- A view with a longest entry has one. -/
theorem exists_longest : ∀ view : LexiconView, view.maxEntryLength = 0 ∨
    ∃ e ∈ view.entries, e.tokens.length = view.maxEntryLength
  | single lexicon => by
    rw [maxEntryLength, entries]
    exact lexicon.exists_longest
  | union parts => by
    rw [maxEntryLength, entries]
    refine (exists_longestOfAll parts).imp id ?_
    rintro ⟨e, he, hlength⟩
    obtain ⟨e', he', hsame⟩ := exists_distinctEntries he
    exact ⟨e', he', by rw [Entry.tokens_eq_of_same hsame, hlength]⟩

theorem exists_longestOfAll : ∀ parts : List LexiconView, maxOfAll parts = 0 ∨
    ∃ e ∈ entriesOfAll parts, e.tokens.length = maxOfAll parts
  | [] => Or.inl rfl
  | part :: parts => by
    rw [maxOfAll, entriesOfAll]
    rcases Nat.le_total (maxEntryLength part) (maxOfAll parts) with hle | hle
    · rw [Nat.max_eq_right hle]
      refine (exists_longestOfAll parts).imp id ?_
      rintro ⟨e, he, hlength⟩
      exact ⟨e, List.mem_append_right _ he, hlength⟩
    · rw [Nat.max_eq_left hle]
      refine (exists_longest part).imp id ?_
      rintro ⟨e, he, hlength⟩
      exact ⟨e, List.mem_append_left _ he, hlength⟩

end

theorem length_le_of_mem_entries {view : LexiconView} {e : Entry} (he : e ∈ view.entries) :
    e.tokens.length ≤ view.maxEntryLength := by
  refine length_le_of_mem_get view (e := e) ?_
  rw [get_eq_filter]
  exact List.mem_filter.2 ⟨he, decide_eq_true rfl⟩

theorem maxEntryLength_eq (view : LexiconView) : view.maxEntryLength =
    ((view.entries.map fun e => e.tokens.length).max?).getD 0 := by
  cases hmax : (view.entries.map fun e => e.tokens.length).max? with
  | none =>
    rw [List.max?_eq_none_iff, List.map_eq_nil_iff] at hmax
    have hreached := exists_longest view
    rw [hmax] at hreached
    simpa using hreached
  | some n =>
    obtain ⟨hmem, hbound⟩ := List.max?_eq_some_iff.1 hmax
    obtain ⟨e, he, rfl⟩ := List.mem_map.1 hmem
    refine Nat.le_antisymm ?_ (length_le_of_mem_entries he)
    rcases exists_longest view with hzero | ⟨e', he', hlength⟩
    · rw [hzero]
      exact Nat.zero_le _
    · rw [← hlength]
      exact hbound _ (List.mem_map_of_mem he')

/-- Whether all that can be read from a view is told by its entries. -/
structure Told (view : LexiconView) : Prop where
  apart : view.entries.Pairwise fun a b => a.same b = false
  contains_iff_get : ∀ e, view.contains e = true ↔ ∃ x ∈ view.get e.tokens, x.same e = true
  contains_iff_entries : ∀ e, view.contains e = true ↔ ∃ x ∈ view.entries, x.same e = true
  size_eq : view.size = view.entries.length
  get_eq : ∀ tokens, view.get tokens = view.entries.filter fun e => e.tokens = tokens
  /-- Of entries that are the same the one in the first lexicon is read. -/
  first : ∀ tokens e, e ∈ view.get tokens ↔ ∃ before lexicon behind,
    view.lexicons = before ++ lexicon :: behind ∧ e ∈ lexicon.get tokens ∧
      ∀ earlier ∈ before, earlier.contains e = false
  longest : view.maxEntryLength = ((view.entries.map fun e => e.tokens.length).max?).getD 0

end LexiconView

namespace Parser

variable {K : Type} [Scalar K]

/-- Offers the cells of the entries of every span to the chart, however long the span, and then
those of the skipped tokens. -/
def addEveryEntry (p : Parser K) (m : Model K) (view : LexiconView) (tokens : List String)
    (chart : Chart K) : Traced (Chart K) := do
  let everywhere := (lexicalSpans tokens.length tokens.length).flatMap fun s =>
    (view.get (tokensOf tokens s)).map fun e => (e, s)
  let chart ← everywhere.foldlM (p.offerEntry m) chart
  if p.config.skipsWords then
    let skippers ← .ofExcept (skippers p.skipped tokens)
    skippers.foldlM (p.offerEntry m) chart
  else return chart

end Parser

/-- All reads of a lexicon or of a nested union of lexicons agree: what they give is told by the
entries, and to look up the spans up to the length of the longest entry is to look up all. -/
theorem LexiconView.reads_agree (view : LexiconView) : view.Told ∧
    ∀ {K : Type} [Scalar K] (p : Parser K) (m : Model K) (tokens : List String) (chart : Chart K),
      p.addEntries m view tokens chart = p.addEveryEntry m view tokens chart := by
  constructor
  · exact {
      apart := view.pairwise_entries
      contains_iff_get := fun _ => contains_iff_get
      contains_iff_entries := fun _ => contains_iff_entries
      size_eq := view.length_entries
      get_eq := fun tokens => get_eq_filter tokens view
      first := fun tokens e => by rw [get_eq_distinct, mem_distinct_get]
      longest := view.maxEntryLength_eq }
  · intro K _ p m tokens chart
    rw [Parser.addEntries, Parser.placements_eq, Parser.addEveryEntry]

end Categorial
