import Mathlib.Data.List.Infix
import Categorial.Learning.Templates
import Categorial.Proofs.Collection.Gather
import Categorial.Proofs.Lexicon.Reads

/-!
The entries that templates propose for a sentence. Main statement: if the categories that templates
give to its sequences can be keys, the lexicon has just these categories, each once, the shorter
sequences first, then those that the sentence has first, and then by the first template that gives
the category; and if entries are linked, an entry and its links are those of its sequence.
-/

namespace Categorial

/-- An entry without its links. -/
def Entry.unlinked (e : Entry) : Entry := { e with linked := [] }

/-- Whether a template gives a category to a sequence of tokens. -/
def Template.Gives (template : Template) (sequence : List String) (c : Category) : Prop :=
  ∃ c', template.category? sequence = some c' ∧ c'.same c = true

namespace Templates

variable {t : Templates} {n : Int} {tokens sequence : List String}

/-- Whether templates are tried on a sequence: on neighbouring tokens of the sentence, of which none
is ignored, and neither on none nor on more than the longest sequence has. -/
structure Tries (t : Templates) (n : Int) (tokens sequence : List String) : Prop where
  neighbours : sequence <:+: tokens
  nonempty : sequence ≠ []
  length : (sequence.length : Int) ≤ n
  kept : ∀ token ∈ sequence, token ∉ t.ignored

/-- Whether the template at a place gives a category to a sequence of tokens. -/
def GivesAt (t : Templates) (k : Nat) (sequence : List String) (c : Category) : Prop :=
  ∃ template, t.templates[k]? = some template ∧ template.Gives sequence c

/-- Whether an entry is to stand before another one: it has fewer tokens, or as many that the
sentence has somewhere before it has those of the other one, or the same tokens and a category that
a template gives before any gives that of the other one. -/
inductive Precedes (t : Templates) (tokens : List String) (a b : Entry) : Prop where
  | shorter (hlength : a.tokens.length < b.tokens.length)
  | earlier (hlength : a.tokens.length = b.tokens.length) (i : Nat)
    (hi : a.tokens <+: tokens.drop i) (hj : ∀ j, b.tokens <+: tokens.drop j → i < j)
  | former (htokens : a.tokens = b.tokens) (k : Nat) (hk : t.GivesAt k a.tokens a.category)
    (hl : ∀ l, t.GivesAt l b.tokens b.category → k < l)

/-! The sequences that templates are tried on. -/

theorem mem_sequences {k : Nat} :
    sequence ∈ sequences tokens k ↔ sequence <:+: tokens ∧ sequence.length = k := by
  rw [sequences, List.mem_map]
  constructor
  · rintro ⟨i, hi, rfl⟩
    rw [List.mem_range] at hi
    have htake := List.take_prefix k (tokens.drop i)
    refine ⟨htake.isInfix.trans (List.drop_suffix i tokens).isInfix, ?_⟩
    rw [List.length_take, List.length_drop]
    omega
  · rintro ⟨⟨before, behind, rfl⟩, rfl⟩
    refine ⟨before.length, ?_, by simp⟩
    rw [List.mem_range]
    simp
    omega

theorem mem_allSequences :
    sequence ∈ t.allSequences n.toNat tokens ↔ t.Tries n tokens sequence := by
  rw [allSequences, List.mem_filter, List.mem_flatMap]
  have hkept : (!sequence.any fun token => t.ignored.contains token) = true ↔
      ∀ token ∈ sequence, token ∉ t.ignored := by simp
  rw [hkept]
  constructor
  · rintro ⟨⟨k, hk, hsequence⟩, hkept⟩
    obtain ⟨hneighbours, hlength⟩ := mem_sequences.1 hsequence
    rw [List.mem_range] at hk
    refine ⟨hneighbours, ?_, by omega, hkept⟩
    rintro rfl
    cases hlength
  · rintro ⟨hneighbours, hnonempty, hlength, hkept⟩
    have hpos := List.length_pos_iff.2 hnonempty
    have hle := hneighbours.length_le
    refine ⟨⟨sequence.length - 1, ?_, mem_sequences.2 ⟨hneighbours, by omega⟩⟩, hkept⟩
    rw [List.mem_range]
    omega

/-- The lengths of the sequences in a sentence with the positions they start at, the shorter ones
first. -/
def places (longest : Nat) (tokens : List String) : List (Nat × Nat) :=
  (List.range (min longest tokens.length)).flatMap fun k =>
    (List.range (tokens.length - k)).map fun i => (k + 1, i)

/-- The sequence at a place, if it has no ignored token. -/
def sequenceAt? (t : Templates) (tokens : List String) (place : Nat × Nat) : Option (List String) :=
  Option.guard (fun sequence => !sequence.any fun token => t.ignored.contains token)
    ((tokens.drop place.2).take place.1)

theorem allSequences_eq (t : Templates) (longest : Nat) (tokens : List String) :
    t.allSequences longest tokens = (places longest tokens).filterMap (t.sequenceAt? tokens) := by
  have hall : ((List.range (min longest tokens.length)).flatMap fun k => sequences tokens (k + 1)) =
      (places longest tokens).map fun place => (tokens.drop place.2).take place.1 := by
    rw [places, List.map_flatMap]
    refine List.flatMap_congr fun k _ => ?_
    rw [sequences, Nat.add_sub_add_right, List.map_map]
    rfl
  rw [allSequences, hall, ← List.filterMap_eq_filter, List.filterMap_map]
  rfl

theorem mem_places {longest k i : Nat} :
    (k, i) ∈ places longest tokens ↔ 0 < k ∧ k ≤ longest ∧ i + k ≤ tokens.length := by
  simp only [places, List.mem_flatMap, List.mem_range, List.mem_map, Prod.mk.injEq]
  constructor
  · rintro ⟨k, hk, i, hi, rfl, rfl⟩
    omega
  · rintro ⟨hpos, hlongest, hlength⟩
    exact ⟨k - 1, by omega, i, by omega, by omega, rfl⟩

theorem pairwise_places (longest : Nat) (tokens : List String) :
    (places longest tokens).Pairwise fun p q => p.1 < q.1 ∨ p.1 = q.1 ∧ p.2 < q.2 := by
  rw [places, List.pairwise_flatMap]
  constructor
  · intro k _
    exact List.pairwise_map.2 (List.pairwise_lt_range.imp fun h => Or.inr ⟨rfl, h⟩)
  · refine List.pairwise_lt_range.imp fun {k k'} hk => ?_
    intro p hp q hq
    obtain ⟨i, -, rfl⟩ := List.mem_map.1 hp
    obtain ⟨j, -, rfl⟩ := List.mem_map.1 hq
    exact Or.inl (Nat.succ_lt_succ hk)

/-- The sequence at a place stands there in the sentence. -/
theorem prefix_of_sequenceAt? {longest : Nat} {place : Nat × Nat}
    (hplace : place ∈ places longest tokens) (h : t.sequenceAt? tokens place = some sequence) :
    sequence.length = place.1 ∧ sequence <+: tokens.drop place.2 ∧
      ∀ i, sequence <+: tokens.drop i → (sequence.length, i) ∈ places longest tokens ∧
        t.sequenceAt? tokens (sequence.length, i) = some sequence := by
  obtain ⟨k, i⟩ := place
  obtain ⟨hpos, hlongest, hlength⟩ := mem_places.1 hplace
  obtain ⟨hsequence, hkept⟩ := Option.guard_eq_some_iff.1 h
  dsimp only at hsequence ⊢
  have hk : sequence.length = k := by
    rw [← hsequence, List.length_take, List.length_drop]
    omega
  refine ⟨hk, hsequence ▸ List.take_prefix _ _, fun j hj => ⟨?_, ?_⟩⟩
  · have hle := hj.length_le
    rw [List.length_drop] at hle
    rw [mem_places]
    omega
  · rw [sequenceAt?, ← List.prefix_iff_eq_take.1 hj]
    exact Option.guard_eq_some_iff.2 ⟨rfl, hsequence ▸ hkept⟩

/-- Sequences are tried in the order of their lengths, and those of one length in the order in which
the sentence has them first. -/
theorem pairwise_sequences (t : Templates) (longest : Nat) (tokens : List String) :
    (distinct (· == ·) (t.allSequences longest tokens)).Pairwise fun a b =>
      a.length < b.length ∨ a.length = b.length ∧
        ∃ i, a <+: tokens.drop i ∧ ∀ j, b <+: tokens.drop j → i < j := by
  have hrefl : ∀ x : List String, (x == x) = true := fun x => beq_self_eq_true x
  have htrans : ∀ {a b c : List String}, (a == b) = true → (b == c) = true → (a == c) = true := by
    intro a b c hab hbc
    rw [beq_iff_eq.1 hab]
    exact hbc
  obtain ⟨first, hsublist, hfirst, hleast⟩ :=
    exists_first_places hrefl htrans (pairwise_places longest tokens) (t.sequenceAt? tokens)
  rw [allSequences_eq, ← hfirst, List.pairwise_filterMap]
  refine ((pairwise_places longest tokens).sublist hsublist).imp_of_mem ?_
  intro p q hp hq hpq a ha b hb
  obtain ⟨hlength, hprefix, -⟩ := prefix_of_sequenceAt? (hsublist.subset hp) ha
  obtain ⟨hlength', -, hplaces⟩ := prefix_of_sequenceAt? (hsublist.subset hq) hb
  rw [hlength, hlength']
  refine hpq.imp_right fun ⟨heq, hlt⟩ => ⟨heq, p.2, hprefix, fun j hj => ?_⟩
  obtain ⟨hmem, hat⟩ := hplaces j hj
  rcases hleast q hq _ hmem b b hb hat (hrefl b) with rfl | hbefore
  · exact hlt
  · omega

/-! The entries for one sequence. -/

/-- The entries for a sequence, one for each template that gives a category. -/
def proposals (t : Templates) (sequence : List String) : List Entry :=
  (t.templates.filterMap (Template.category? sequence)).map fun c => ⟨sequence, c, .generated, []⟩

/-- The entries for a sequence, linked to each other if these templates link them. -/
def entriesFor (t : Templates) (sequence : List String) : List Entry :=
  if t.linked then linkAll [] (t.proposals sequence) else t.proposals sequence

/-- Whether all categories that templates give to a sequence can be keys. -/
def Keyed (t : Templates) (sequence : List String) : Prop :=
  ∀ template ∈ t.templates, ∀ c, template.category? sequence = some c → c.hashable = true

theorem mem_proposals {e : Entry} : e ∈ t.proposals sequence ↔
    ∃ template ∈ t.templates, ∃ c, template.category? sequence = some c ∧
      e = ⟨sequence, c, .generated, []⟩ := by
  simp only [proposals, List.mem_map, List.mem_filterMap]
  constructor
  · rintro ⟨c, ⟨template, htemplate, hc⟩, rfl⟩
    exact ⟨template, htemplate, c, hc, rfl⟩
  · rintro ⟨template, htemplate, c, hc, rfl⟩
    exact ⟨c, ⟨template, htemplate, hc⟩, rfl⟩

/-- Whether templates give a sequence a category that refuses to be a key with a fault. -/
def Refuses (t : Templates) (sequence : List String) (fault : Fault) : Prop :=
  ∃ template ∈ t.templates, ∃ c, template.category? sequence = some c ∧ c.keyFault? = some fault

/-- There are entries for a sequence just if all its categories can be keys. -/
theorem propose_ok_iff {es : List Entry} : propose t.templates sequence = .ok es ↔
    t.Keyed sequence ∧ es = t.proposals sequence := by
  have hcreate : ∀ c e, Entry.create sequence c .generated [] = .ok e ↔
      c.hashable = true ∧ (⟨sequence, c, .generated, []⟩ : Entry) = e := fun c e => by
    rw [Entry.create_ok_iff, @eq_comm Entry e]
  have hkeyed : t.Keyed sequence ↔
      ∀ c ∈ t.templates.filterMap (Template.category? sequence), c.hashable = true := by
    simp only [List.mem_filterMap, Keyed]
    exact ⟨fun h c ⟨template, htemplate, hc⟩ => h template htemplate c hc,
      fun h template htemplate c hc => h c ⟨template, htemplate, hc⟩⟩
  simp only [propose, mapM_eq_ok, hcreate, List.forall₂_and_left, hkeyed, proposals]
  rw [List.forall₂_map_left_iff.symm, List.forall₂_eq_eq_eq, @eq_comm _ es]

theorem propose_eq (h : t.Keyed sequence) :
    propose t.templates sequence = .ok (t.proposals sequence) := propose_ok_iff.2 ⟨h, rfl⟩

/-- A fault for a sequence is one with which a category for it refuses to be a key. -/
theorem refuses_of_propose {fault : Fault} (h : propose t.templates sequence = .error fault) :
    t.Refuses sequence fault := by
  obtain ⟨c, hc, hcreate⟩ := exists_of_mapM_error h
  obtain ⟨template, htemplate, hgiven⟩ := List.mem_filterMap.1 hc
  exact ⟨template, htemplate, c, hgiven, Entry.create_error_iff.1 hcreate⟩

theorem map_unlinked_linkAll (before es : List Entry) :
    (linkAll before es).map Entry.unlinked = es.map Entry.unlinked := by
  induction es generalizing before with
  | nil => rfl
  | cons e es ih => rw [linkAll, List.map_cons, List.map_cons, ih]; rfl

theorem map_unlinked_entriesFor (t : Templates) (sequence : List String) :
    (t.entriesFor sequence).map Entry.unlinked = t.proposals sequence := by
  have hplain : (t.proposals sequence).map Entry.unlinked = t.proposals sequence := by
    rw [proposals, List.map_map]
    rfl
  rw [entriesFor]
  split
  · rw [map_unlinked_linkAll, hplain]
  · exact hplain

theorem unlinked_mem_proposals {e : Entry} (h : e ∈ t.entriesFor sequence) :
    e.unlinked ∈ t.proposals sequence :=
  map_unlinked_entriesFor t sequence ▸ List.mem_map_of_mem h

/-- The entries for a sequence are the same as some, whether they are linked or not. -/
theorem exists_entriesFor (t : Templates) (sequence : List String) (x : Entry) :
    (∃ e ∈ t.entriesFor sequence, e.same x = true) ↔
      ∃ e ∈ t.proposals sequence, e.same x = true := by
  rw [← map_unlinked_entriesFor]
  constructor
  · rintro ⟨e, he, hsame⟩
    exact ⟨e.unlinked, List.mem_map_of_mem he, hsame⟩
  · rintro ⟨_, hmem, hsame⟩
    obtain ⟨e, he, rfl⟩ := List.mem_map.1 hmem
    exact ⟨e, he, hsame⟩

/-- An entry is proposed for a sequence just if it has these tokens and a category given to them. -/
theorem exists_proposals {x : Entry} : (∃ e ∈ t.proposals sequence, e.same x = true) ↔
    x.tokens = sequence ∧ ∃ template ∈ t.templates, template.Gives sequence x.category := by
  constructor
  · rintro ⟨e, he, hsame⟩
    obtain ⟨template, htemplate, c, hc, rfl⟩ := mem_proposals.1 he
    rw [Entry.same, Bool.and_eq_true, beq_iff_eq] at hsame
    exact ⟨hsame.1.symm, template, htemplate, c, hc, hsame.2⟩
  · rintro ⟨rfl, template, htemplate, c, hc, hsame⟩
    refine ⟨_, mem_proposals.2 ⟨template, htemplate, c, hc, rfl⟩, ?_⟩
    rw [Entry.same, beq_self_eq_true, Bool.true_and]
    exact hsame

/-- An entry with its links is the same as all that is proposed with it. -/
theorem linked_entriesFor (hlinked : t.linked = true) {e : Entry} (he : e ∈ t.entriesFor sequence)
    (x : Entry) : (e.same x = true ∨ ∃ y ∈ e.linked, y.same x = true) ↔
      ∃ y ∈ t.proposals sequence, y.same x = true := by
  rw [entriesFor, if_pos hlinked] at he
  obtain ⟨start, e', rest, hsplit, rfl⟩ := linked_of_mem_linkAll he
  rw [hsplit]
  have hself : Entry.same { e' with linked := [] ++ start ++ rest } x = e'.same x := rfl
  rw [hself]
  simp only [List.nil_append, List.mem_append, List.mem_cons]
  constructor
  · rintro (hsame | ⟨y, hy, hsame⟩)
    · exact ⟨e', Or.inr (Or.inl rfl), hsame⟩
    · exact ⟨y, hy.imp_right Or.inr, hsame⟩
  · rintro ⟨y, hy | rfl | hy, hsame⟩
    · exact Or.inr ⟨y, Or.inl hy, hsame⟩
    · exact Or.inl hsame
    · exact Or.inr ⟨y, Or.inr hy, hsame⟩

/-- The first ones of the proposed entries stand in the order of the templates that give them, each
with the category of the first template that gives it. -/
theorem exists_first_templates (t : Templates) (sequence : List String) :
    ∃ first : List (Template × Nat), (first.Pairwise fun p q => p.2 < q.2) ∧
      (first.filterMap fun p => (p.1.category? sequence).map fun c =>
        (⟨sequence, c, .generated, []⟩ : Entry)) = distinct Entry.same (t.proposals sequence) ∧
      ∀ p ∈ first, t.templates[p.2]? = some p.1 ∧ ∀ c, p.1.category? sequence = some c →
        ∀ l, t.GivesAt l sequence c → p.2 ≤ l := by
  have hplaces : t.templates.zipIdx.Pairwise fun p q => p.2 < q.2 := by
    rw [← List.pairwise_map (f := Prod.snd) (R := (· < ·)), List.zipIdx_map_snd]
    exact List.pairwise_lt_range' 1
  have hall : t.proposals sequence = t.templates.zipIdx.filterMap fun p =>
      (p.1.category? sequence).map fun c => (⟨sequence, c, .generated, []⟩ : Entry) := by
    conv_lhs => rw [proposals, ← List.zipIdx_map_fst 0 t.templates]
    rw [List.filterMap_map, List.map_filterMap]
    rfl
  obtain ⟨first, hsublist, hfirst, hleast⟩ := exists_first_places Entry.same_refl Entry.same_trans
    hplaces fun p => (p.1.category? sequence).map fun c => (⟨sequence, c, .generated, []⟩ : Entry)
  refine ⟨first, hplaces.sublist hsublist, hfirst.trans (hall ▸ rfl), fun p hp =>
    ⟨List.mem_zipIdx_iff_getElem?.1 (hsublist.subset hp), fun c hc l hl => ?_⟩⟩
  obtain ⟨template, htemplate, c', hc', hsame⟩ := hl
  have hmem : (template, l) ∈ t.templates.zipIdx := List.mem_zipIdx_iff_getElem?.2 htemplate
  rcases hleast p hp _ hmem _ _ (congrArg _ hc) (congrArg _ hc') (by simpa [Entry.same]) with h | h
  · exact Nat.le_of_eq (congrArg Prod.snd h).symm
  · exact Nat.le_of_lt h

/-! The entries for a sentence. -/

/-- The lexicon with the entries for one more sequence. -/
def extend (t : Templates) (lexicon : Lexicon) (sequence : List String) : Except Fault Lexicon := do
  let entries ← propose t.templates sequence
  let entries := if t.linked then linkAll [] entries else entries
  return (lexicon.addAll entries).2

theorem extend_eq (h : t.Keyed sequence) (lexicon : Lexicon) :
    t.extend lexicon sequence = .ok ((t.entriesFor sequence).foldl Lexicon.insert lexicon) := by
  rw [extend, propose_eq h, ← Lexicon.addAll_eq]
  rfl

theorem foldlM_extend {sequences : List (List String)} (h : ∀ s ∈ sequences, t.Keyed s)
    (lexicon : Lexicon) : sequences.foldlM t.extend lexicon =
      .ok ((sequences.flatMap t.entriesFor).foldl Lexicon.insert lexicon) := by
  induction sequences generalizing lexicon with
  | nil => rfl
  | cons s sequences ih =>
    rw [List.foldlM_cons, extend_eq (h s List.mem_cons_self), List.flatMap_cons, List.foldl_append]
    exact ih (fun s hs => h s (List.mem_cons_of_mem _ hs)) _

/-- Entries for all sequences are found just if all their categories can be keys. -/
theorem keyed_of_foldlM_extend {sequences : List (List String)} {lexicon lexicon' : Lexicon}
    (h : sequences.foldlM t.extend lexicon = .ok lexicon') : ∀ s ∈ sequences, t.Keyed s := by
  induction sequences generalizing lexicon with
  | nil => simp
  | cons s sequences ih =>
    rw [List.foldlM_cons] at h
    obtain ⟨_, hextend, h⟩ := bind_eq_ok.1 h
    obtain ⟨_, hpropose, -⟩ := bind_eq_ok.1 hextend
    exact List.forall_mem_cons.2 ⟨(propose_ok_iff.1 hpropose).1, ih h⟩

/-- A category that cannot be a key ends the look for entries with a fault, the one with which such
a category refuses to be a key. -/
theorem foldlM_extend_fault {sequences : List (List String)} (h : ∃ s ∈ sequences, ¬ t.Keyed s)
    (lexicon : Lexicon) : ∃ s ∈ sequences, ∃ fault, t.Refuses s fault ∧
      sequences.foldlM t.extend lexicon = .error fault := by
  have hnot : ¬ ∃ lexicon', sequences.foldlM t.extend lexicon = .ok lexicon' := by
    rintro ⟨lexicon', hok⟩
    obtain ⟨s, hs, hkeyed⟩ := h
    exact hkeyed (keyed_of_foldlM_extend hok s hs)
  obtain ⟨fault, hfault⟩ := exists_error_iff.2 hnot
  obtain ⟨s, hs, start, hextend⟩ := exists_of_foldlM_error hfault
  rcases bind_eq_error.1 hextend with hpropose | ⟨_, -, hdone⟩
  · exact ⟨s, hs, fault, refuses_of_propose hpropose, hfault⟩
  · cases hdone

/-- What a lexicon is that has just what templates give to the sequences of a sentence. -/
structure Exhausts (t : Templates) (n : Int) (tokens : List String) (lexicon : Lexicon) : Prop where
  /-- It has an entry for each category that a template gives to a sequence, and no other one. -/
  contains : ∀ e, lexicon.contains e = true ↔ t.Tries n tokens e.tokens ∧
    ∃ template ∈ t.templates, template.Gives e.tokens e.category
  /-- It has no entry twice. -/
  once : lexicon.entries.Pairwise fun a b => a.same b = false
  /-- Shorter sequences stand before longer ones, and sequences of one length in the order in which
  the sentence has them first; categories stand in the order of the first templates for them. -/
  order : lexicon.entries.Pairwise (t.Precedes tokens)
  /-- The category of an entry is the one that the first template for it gives. -/
  first : ∀ e ∈ lexicon.entries, ∃ k template, t.templates[k]? = some template ∧
    template.category? e.tokens = some e.category ∧ ∀ l, t.GivesAt l e.tokens e.category → k ≤ l
  origin : ∀ e ∈ lexicon.entries, e.origin = .generated
  /-- If entries are linked, an entry and its links are the entries for its sequence. -/
  linked : t.linked = true → ∀ e ∈ lexicon.entries, ∀ x,
    (e.same x = true ∨ ∃ y ∈ e.linked, y.same x = true) ↔
      ∃ y ∈ lexicon.get e.tokens, y.same x = true
  plain : t.linked = false → ∀ e ∈ lexicon.entries, e.linked = []

theorem tokens_of_mem_entriesFor {e : Entry} (h : e ∈ t.entriesFor sequence) :
    e.tokens = sequence ∧ e.origin = .generated := by
  obtain ⟨-, -, c, -, heq⟩ := mem_proposals.1 (unlinked_mem_proposals h)
  exact ⟨congrArg Entry.tokens heq, congrArg Entry.origin heq⟩

theorem map_unlinked_distinct (t : Templates) (sequence : List String) :
    (distinct Entry.same (t.entriesFor sequence)).map Entry.unlinked =
      distinct Entry.same (t.proposals sequence) := by
  have hsame : ∀ a b : Entry, a.unlinked.same b.unlinked = a.same b := fun _ _ => rfl
  rw [← map_unlinked_entriesFor, distinct_map hsame]

/-- The entries for one sequence stand in the order of the templates. -/
theorem pairwise_entriesFor (t : Templates) (tokens sequence : List String) :
    (distinct Entry.same (t.entriesFor sequence)).Pairwise (t.Precedes tokens) := by
  obtain ⟨first, hpairwise, hfirst, hleast⟩ := t.exists_first_templates sequence
  have hproposals : (distinct Entry.same (t.proposals sequence)).Pairwise (t.Precedes tokens) := by
    rw [← hfirst, List.pairwise_filterMap]
    refine hpairwise.imp_of_mem fun {p q} hp hq hlt a ha b hb => ?_
    obtain ⟨c, hc, rfl⟩ := Option.map_eq_some_iff.1 ha
    obtain ⟨c', hc', rfl⟩ := Option.map_eq_some_iff.1 hb
    refine .former rfl p.2 ⟨p.1, (hleast p hp).1, c, hc, Category.same_refl c⟩ fun l hl => ?_
    exact Nat.lt_of_lt_of_le hlt ((hleast q hq).2 c' hc' l hl)
  rw [← map_unlinked_distinct, List.pairwise_map] at hproposals
  refine hproposals.imp fun {a b} h => ?_
  cases h with
  | shorter hlength => exact .shorter hlength
  | earlier hlength i hi hj => exact .earlier hlength i hi hj
  | former htokens k hk hl => exact .former htokens k hk hl

section

variable (t : Templates) (n : Int) (tokens : List String)

/-- The lexicon with the entries for all sequences of a sentence. -/
def lexiconFor : Lexicon :=
  ((t.allSequences n.toNat tokens).flatMap t.entriesFor).foldl Lexicon.insert .empty

theorem entries_lexiconFor : (t.lexiconFor n tokens).entries =
    (distinct (· == ·) (t.allSequences n.toNat tokens)).flatMap fun sequence =>
      distinct Entry.same (t.entriesFor sequence) :=
  Lexicon.entries_foldl_insert_flatMap (fun _ _ he => (tokens_of_mem_entriesFor he).1) _

variable {t n tokens}

theorem mem_lexiconFor {e : Entry} (h : e ∈ (t.lexiconFor n tokens).entries) :
    t.Tries n tokens e.tokens ∧ e ∈ distinct Entry.same (t.entriesFor e.tokens) := by
  rw [entries_lexiconFor, List.mem_flatMap] at h
  obtain ⟨sequence, hsequence, he⟩ := h
  obtain rfl := (tokens_of_mem_entriesFor (mem_of_mem_distinct he)).1
  exact ⟨mem_allSequences.1 (mem_of_mem_distinct hsequence), he⟩

theorem contains_lexiconFor (x : Entry) : (t.lexiconFor n tokens).contains x = true ↔
    t.Tries n tokens x.tokens ∧ ∃ e ∈ t.proposals x.tokens, e.same x = true := by
  rw [lexiconFor, Lexicon.contains_foldl_insert]
  constructor
  · rintro (h | ⟨e, he, hsame⟩)
    · cases h
    · obtain ⟨sequence, hsequence, he⟩ := List.mem_flatMap.1 he
      have hgiven := (exists_entriesFor t sequence x).1 ⟨e, he, hsame⟩
      obtain rfl := (exists_proposals.1 hgiven).1
      exact ⟨mem_allSequences.1 hsequence, hgiven⟩
  · rintro ⟨htries, hgiven⟩
    obtain ⟨e, he, hsame⟩ := (exists_entriesFor t x.tokens x).2 hgiven
    exact Or.inr ⟨e, List.mem_flatMap.2 ⟨_, mem_allSequences.2 htries, he⟩, hsame⟩

end

/-- Shorter sequences stand before longer ones, and of sequences of one length those that the
sentence has first. -/
theorem pairwise_lexiconFor (t : Templates) (n : Int) (tokens : List String) :
    (t.lexiconFor n tokens).entries.Pairwise (t.Precedes tokens) := by
  rw [entries_lexiconFor, List.pairwise_flatMap]
  refine ⟨fun sequence _ => pairwise_entriesFor t tokens sequence,
    (pairwise_sequences t n.toNat tokens).imp fun {a b} h x hx y hy => ?_⟩
  obtain rfl := (tokens_of_mem_entriesFor (mem_of_mem_distinct hx)).1
  obtain rfl := (tokens_of_mem_entriesFor (mem_of_mem_distinct hy)).1
  rcases h with hlength | ⟨hlength, i, hi, hj⟩
  · exact .shorter hlength
  · exact .earlier hlength i hi hj

theorem exhausts_lexiconFor (t : Templates) (n : Int) (tokens : List String) :
    t.Exhausts n tokens (t.lexiconFor n tokens) where
  contains e := by
    rw [contains_lexiconFor, exists_proposals]
    exact and_congr_right fun _ => ⟨fun h => h.2, fun h => ⟨rfl, h⟩⟩
  once := Lexicon.pairwise_entries _
  order := pairwise_lexiconFor t n tokens
  first e he := by
    obtain ⟨-, hmem⟩ := mem_lexiconFor he
    obtain ⟨first, -, hfirst, hleast⟩ := t.exists_first_templates e.tokens
    have hunlinked := List.mem_map_of_mem (f := Entry.unlinked) hmem
    rw [map_unlinked_distinct, ← hfirst, List.mem_filterMap] at hunlinked
    obtain ⟨p, hp, hgiven⟩ := hunlinked
    obtain ⟨c, hc, heq⟩ := Option.map_eq_some_iff.1 hgiven
    obtain rfl : c = e.category := congrArg Entry.category heq
    exact ⟨p.2, p.1, (hleast p hp).1, hc, (hleast p hp).2 _ hc⟩
  origin e he := (tokens_of_mem_entriesFor (mem_of_mem_distinct (mem_lexiconFor he).2)).2
  linked hlinked e he x := by
    obtain ⟨htries, hmem⟩ := mem_lexiconFor he
    rw [linked_entriesFor hlinked (mem_of_mem_distinct hmem)]
    constructor
    · intro hgiven
      have htokens := (exists_proposals.1 hgiven).1
      rw [← htokens] at hgiven htries ⊢
      exact List.any_eq_true.1 ((contains_lexiconFor x).2 ⟨htries, hgiven⟩)
    · rintro ⟨y, hy, hsame⟩
      have htokens := (Lexicon.tokens_of_mem_get hy).symm.trans (Entry.tokens_eq_of_same hsame)
      rw [htokens] at hy ⊢
      exact ((contains_lexiconFor x).1 (List.any_eq_true.2 ⟨y, hy, hsame⟩)).2
  plain hplain e he := by
    have hmem := mem_of_mem_distinct (mem_lexiconFor he).2
    rw [entriesFor, hplain, if_neg Bool.false_ne_true] at hmem
    obtain ⟨-, -, c, -, heq⟩ := mem_proposals.1 hmem
    exact congrArg Entry.linked heq

/-- If all categories that templates give to the sequences of a sentence can be keys, the lexicon
that they propose has just these categories, once and in order, with their links. If one of them
cannot be a key, there is no lexicon but a fault with which one of them refuses to be a key. -/
theorem generate_exact (hlongest : t.longest.whole = .ok n) (tokens : List String) :
    ((∀ sequence, t.Tries n tokens sequence → t.Keyed sequence) →
      ∃ lexicon, t.generate tokens = .ok lexicon ∧ t.Exhausts n tokens lexicon) ∧
    ((∃ sequence, t.Tries n tokens sequence ∧ ¬ t.Keyed sequence) →
      ∃ sequence, t.Tries n tokens sequence ∧ ∃ fault, t.Refuses sequence fault ∧
        t.generate tokens = .error fault) := by
  have hgenerate : t.generate tokens =
      (t.allSequences n.toNat tokens).foldlM t.extend .empty := by
    rw [generate, hlongest]
    rfl
  rw [hgenerate]
  constructor
  · intro hkeyed
    refine ⟨_, foldlM_extend (fun s hs => hkeyed s (mem_allSequences.1 hs)) _, ?_⟩
    exact exhausts_lexiconFor t n tokens
  · rintro ⟨sequence, htries, hnot⟩
    obtain ⟨s, hs, hfault⟩ := foldlM_extend_fault ⟨sequence, mem_allSequences.2 htries, hnot⟩ .empty
    exact ⟨s, mem_allSequences.1 hs, hfault⟩

/-- Two templates for names and between them one for every sequence, tried on sequences of at most
two tokens other than `the`. -/
def nameTemplates : Templates where
  templates := [.fixed ⟨some (.primitive "N"), .text "cube"⟩,
    .ofTokens fun tokens => some ⟨some (.primitive "NP"), .text ("_".intercalate tokens)⟩,
    .ofTokens fun tokens =>
      if tokens.length = 1 then some ⟨some (.primitive "N"), .text ("_".intercalate tokens)⟩
      else none]
  longest := .int 2
  linked := true
  ignored := ["the"]

/-- A sequence that the sentence has twice gets its entries once, and so does a category that two
templates give to it. -/
theorem generate_exact_names : ∃ lexicon,
    nameTemplates.generate ["the", "cube", "cube"] = .ok lexicon ∧
    nameTemplates.Exhausts 2 ["the", "cube", "cube"] lexicon ∧
    lexicon.entries.map Entry.text = ["[cube :- N : cube \x7bgenerated\x7d]",
      "[cube :- NP : cube \x7bgenerated\x7d]", "[cube cube :- N : cube \x7bgenerated\x7d]",
      "[cube cube :- NP : cube_cube \x7bgenerated\x7d]"] := by
  have hkeyed : ∀ sequence, nameTemplates.Keyed sequence := by
    intro sequence template htemplate c hc
    simp only [nameTemplates, List.mem_cons, List.not_mem_nil, or_false] at htemplate
    rcases htemplate with rfl | rfl | rfl
    · obtain rfl := Option.some.inj hc
      rfl
    · obtain rfl := Option.some.inj hc
      rfl
    · simp only [Template.category?] at hc
      split at hc
      · obtain rfl := Option.some.inj hc
        rfl
      · cases hc
  obtain ⟨lexicon, hgenerate, hexhausts⟩ :=
    (generate_exact (t := nameTemplates) (n := 2) rfl ["the", "cube", "cube"]).1 fun _ _ => hkeyed _
  have hrun : nameTemplates.generate ["the", "cube", "cube"] = .ok _ := rfl
  obtain rfl := Except.ok.inj (hrun.symm.trans hgenerate)
  exact ⟨_, hgenerate, hexhausts, by decide +kernel⟩

/-- A template for a category that cannot be a key: its sequence is tried, but there is no
lexicon. -/
theorem generate_unkeyed :
    let c : Category := ⟨some (.primitive "N"), .list []⟩
    let t : Templates := ⟨[.fixed c], .int 1, false, []⟩
    t.Tries 1 ["w"] ["w"] ∧ (∃ template ∈ t.templates, template.Gives ["w"] c) ∧
      t.generate ["w"] = .error (.unhashable "list") := by
  intro c t
  refine ⟨⟨List.infix_refl _, by decide, by decide, by simp [t]⟩, ?_, rfl⟩
  exact ⟨_, List.mem_singleton.2 rfl, c, rfl, Category.same_refl c⟩

end Templates

end Categorial
