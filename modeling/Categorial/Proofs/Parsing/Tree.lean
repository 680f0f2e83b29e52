import Categorial.Proofs.Parsing.Derivations

/-!
Derivations of a sentence as trees, apart from any chart: entries at spans, and results of rules on
one or two derivations. A cell stands for a tree up to equality of entries and categories. Main
statements: every cell that is a derivation stands for one of these trees, and two cells that stand
for one tree are one node.
-/

namespace Categorial

/-- A tree of entries at spans and results of rules. -/
inductive Tree where
  | entry (e : Entry) (s : Span)
  | pair (r : RuleResult) (left right : Tree)
  | shift (r : RuleResult) (child : Tree)

namespace Tree

/-- The category of a tree. -/
def category : Tree → Category
  | entry e _ => e.category
  | pair r _ _ => r.category
  | shift r _ => r.category

/-- The span of a tree. -/
def span : Tree → Span
  | entry _ s => s
  | pair _ left right => ⟨left.span.start, right.span.stop⟩
  | shift _ child => child.span

/-- Whether the last step of a tree is a result on a single one. -/
def isShift : Tree → Bool
  | shift .. => true
  | _ => false

variable {K : Type}

/-- Whether a cell stands for a tree. -/
def describes : Tree → Cell K → Bool
  | entry e s, c => s == c.span && c.entry?.any e.same
  | pair r left right, c => r.rule == c.rule && r.category.same c.category &&
    match c.children with
    | [a, b] => left.describes a && right.describes b
    | _ => false
  | shift r child, c => r.rule == c.rule && r.category.same c.category &&
    match c.children with
    | [a] => child.describes a
    | _ => false

theorem describes_entry {e : Entry} {s : Span} {c : Cell K} :
    (entry e s).describes c = true ↔ s = c.span ∧ ∃ e', c.entry? = some e' ∧ e.same e' = true := by
  simp [describes, Option.any_eq_true]

theorem describes_pair {r : RuleResult} {left right : Tree} {c : Cell K} :
    (pair r left right).describes c = true ↔ (r.rule = c.rule ∧ r.category.same c.category = true) ∧
      ∃ a b, c.children = [a, b] ∧ left.describes a = true ∧ right.describes b = true := by
  simp only [describes, Bool.and_eq_true, beq_iff_eq]
  refine and_congr_right ?_
  intro _
  split
  · rename_i a b hchildren
    simp [hchildren]
  · rename_i hother
    simp only [Bool.false_eq_true, false_iff, not_exists]
    intro a b h
    exact hother a b h.1

theorem describes_shift {r : RuleResult} {child : Tree} {c : Cell K} :
    (shift r child).describes c = true ↔ (r.rule = c.rule ∧ r.category.same c.category = true) ∧
      ∃ a, c.children = [a] ∧ child.describes a = true := by
  simp only [describes, Bool.and_eq_true, beq_iff_eq]
  refine and_congr_right ?_
  intro _
  split
  · rename_i a hchildren
    simp [hchildren]
  · rename_i hother
    simp only [Bool.false_eq_true, false_iff, not_exists]
    intro a h
    exact hother a h.1

theorem category_same_of_describes {T : Tree} {c : Cell K} (h : T.describes c = true) :
    T.category.same c.category = true := by
  cases T with
  | entry e s =>
    obtain ⟨-, e', he', hsame⟩ := describes_entry.1 h
    cases c with
    | lexical e'' =>
      obtain rfl : e'' = e' := Option.some.inj he'
      rw [Entry.same, Bool.and_eq_true] at hsame
      exact hsame.2
    | derived => simp [Cell.entry?] at he'
  | pair => exact (describes_pair.1 h).1.2
  | shift => exact (describes_shift.1 h).1.2

/-- A cell that stands for a result on a single tree has a single child, and no other one has. -/
theorem isShift_iff {T : Tree} {c : Cell K} (h : T.describes c = true) :
    T.isShift = true ↔ c.children.length = 1 := by
  cases T with
  | entry e s =>
    obtain ⟨-, e', he', -⟩ := describes_entry.1 h
    cases c with
    | lexical => simp [isShift, Cell.children]
    | derived => simp [Cell.entry?] at he'
  | pair =>
    obtain ⟨-, a, b, hchildren, -⟩ := describes_pair.1 h
    simp [isShift, hchildren]
  | shift =>
    obtain ⟨-, a, hchildren, -⟩ := describes_shift.1 h
    simp [isShift, hchildren]

/-- Cells that are one step stand for the same trees. -/
theorem describes_of_sameStep {T : Tree} {c d : Cell K} (h : T.describes c = true)
    (hsame : c.sameStep d = true) : T.describes d = true := by
  induction T generalizing c d with
  | entry e s =>
    obtain ⟨hs, e', he', heq⟩ := describes_entry.1 h
    cases c with
    | derived => simp [Cell.entry?] at he'
    | lexical =>
      cases d with
      | derived => simp [Cell.sameStep] at hsame
      | lexical e'' s'' =>
        obtain rfl := Option.some.inj he'
        simp only [Cell.sameStep, Bool.and_eq_true, beq_iff_eq] at hsame
        exact describes_entry.2 ⟨hs.trans hsame.1, e'', rfl, Entry.same_trans heq hsame.2⟩
  | pair r left right ihl ihr =>
    obtain ⟨⟨hrule, hcategory⟩, a, b, hchildren, ha, hb⟩ := describes_pair.1 h
    obtain ⟨hrule', hcategory', hnodes⟩ := Cell.parts_of_sameStep hsame (by simp [hchildren])
    obtain ⟨a', b', hchildren', ha', hb'⟩ := Cell.sameNodes_pair (hchildren ▸ hnodes)
    refine describes_pair.2 ⟨⟨hrule.trans hrule', Category.same_trans hcategory hcategory'⟩, a', b',
      hchildren', ihl ha (Cell.sameStep_of_sameNode ha'), ihr hb (Cell.sameStep_of_sameNode hb')⟩
  | shift r child ih =>
    obtain ⟨⟨hrule, hcategory⟩, a, hchildren, ha⟩ := describes_shift.1 h
    obtain ⟨hrule', hcategory', hnodes⟩ := Cell.parts_of_sameStep hsame (by simp [hchildren])
    obtain ⟨a', hchildren', ha'⟩ := Cell.sameNodes_single (hchildren ▸ hnodes)
    exact describes_shift.2 ⟨⟨hrule.trans hrule', Category.same_trans hcategory hcategory'⟩, a',
      hchildren', ih ha (Cell.sameStep_of_sameNode ha')⟩

end Tree

namespace Sentence

variable {K : Type} {t t' : Sentence K}

/-- The derivations of a sentence: entries of its tokens, entries that skip a token if tokens may be
skipped, results of rules on two derivations that lie side by side, and results on a single one that
is not such a result itself. -/
inductive IsDerivation (t : Sentence K) : Tree → Prop where
  | entry {e : Entry} {s : Span} (hs : t.blank.hasSpan s = true)
      (he : e ∈ t.view.get (Parser.tokensOf t.tokens s)) : IsDerivation t (.entry e s)
  | skip {s : Span} (hs : t.blank.hasSpan s = true) (hskips : t.parser.config.skipsWords = true)
      (hone : s.length = 1) :
      IsDerivation t (.entry (Parser.skipper t.parser.skipped (Parser.tokensOf t.tokens s)) s)
  | pair {r : RuleResult} {results : List RuleResult} {left right : Tree}
      (hl : IsDerivation t left) (hr : IsDerivation t right)
      (hjoin : left.span.stop = right.span.start)
      (hresults : (t.parser.grammar.applyBinary left.category right.category).result = .ok results)
      (hres : r ∈ results) : IsDerivation t (.pair r left right)
  | shift {r : RuleResult} {results : List RuleResult} {child : Tree}
      (hchild : IsDerivation t child) (hshift : child.isShift = false)
      (hresults : (t.parser.grammar.applyUnary child.category).result = .ok results)
      (hres : r ∈ results) : IsDerivation t (.shift r child)

/-- Whether an entry that skips a token scores as much as an entry of the lexicon that is the
same. -/
def SkipsAlike [Scalar K] (t : Sentence K) : Prop :=
  t.parser.config.skipsWords = true → ∀ s, t.blank.hasSpan s = true → s.length = 1 →
    ∀ e ∈ t.view.get (Parser.tokensOf t.tokens s),
      e.same (Parser.skipper t.parser.skipped (Parser.tokensOf t.tokens s)) = true →
        t.model.scoreEntry (Parser.skipper t.parser.skipped (Parser.tokensOf t.tokens s)) =
          t.model.scoreEntry e

variable [Scalar K]

/-- The score of a tree: that of its entry, or of its parts and the rule. -/
def scoreTree (t : Sentence K) : Tree → Except Fault K
  | .entry e _ => t.model.scoreEntry e
  | .pair r left right => do
    let x ← t.scoreTree left
    let y ← t.scoreTree right
    t.scoreNode [x, y] r.rule
  | .shift r child => do
    let x ← t.scoreTree child
    t.scoreNode [x] r.rule

/-- Two cells that stand for one tree are one node, also where they are of two sentences. -/
theorem Derives.sameNode_of_describes {T : Tree} {c d : Cell K} (hc : t.Derives c)
    (hd : t'.Derives d) (h : T.describes c = true) (h' : T.describes d = true) :
    c.sameNode d = true := by
  induction T generalizing c d with
  | entry e s =>
    obtain ⟨hs, e', he', hsame⟩ := Tree.describes_entry.1 h
    obtain ⟨hs', e'', he'', hsame'⟩ := Tree.describes_entry.1 h'
    have heq := Entry.same_trans (Entry.same_symm hsame) hsame'
    cases hc with
    | entry =>
      cases hd with
      | entry =>
        obtain rfl := Option.some.inj he'
        obtain rfl := Option.some.inj he''
        rw [leaf_span] at hs hs'
        simp [leaf, Cell.sameNode, heq, ← hs, ← hs']
      | pair => simp [node, Cell.entry?] at he''
      | shift => simp [node, Cell.entry?] at he''
    | pair => simp [node, Cell.entry?] at he'
    | shift => simp [node, Cell.entry?] at he'
  | pair r left right ihl ihr =>
    obtain ⟨⟨hrule, hcategory⟩, a, b, hchildren, ha, hb⟩ := Tree.describes_pair.1 h
    obtain ⟨⟨hrule', hcategory'⟩, a', b', hchildren', ha', hb'⟩ := Tree.describes_pair.1 h'
    refine hc.sameNode_of_parts hd (by simp [hchildren]) (by simp [hchildren'])
      (hrule.symm.trans hrule') (Category.same_trans (Category.same_symm hcategory) hcategory') ?_
    have hleft := ihl (hc.child (by simp [hchildren])) (hd.child (by simp [hchildren'])) ha ha'
    have hright := ihr (hc.child (by simp [hchildren])) (hd.child (by simp [hchildren'])) hb hb'
    simp [hchildren, hchildren', Cell.sameNodes, hleft, hright]
  | shift r child ih =>
    obtain ⟨⟨hrule, hcategory⟩, a, hchildren, ha⟩ := Tree.describes_shift.1 h
    obtain ⟨⟨hrule', hcategory'⟩, a', hchildren', ha'⟩ := Tree.describes_shift.1 h'
    refine hc.sameNode_of_parts hd (by simp [hchildren]) (by simp [hchildren'])
      (hrule.symm.trans hrule') (Category.same_trans (Category.same_symm hcategory) hcategory') ?_
    have hchild := ih (hc.child (by simp [hchildren])) (hd.child (by simp [hchildren'])) ha ha'
    simp [hchildren, hchildren', Cell.sameNodes, hchild]

/-- Where entries that skip tokens score as much as entries that are the same, a cell has the score
of every tree that it stands for. -/
theorem Derives.scoreTree_eq (hskips : t.SkipsAlike) {T : Tree} {c : Cell K} (hc : t.Derives c)
    (hT : t.IsDerivation T) (h : T.describes c = true) : t.scoreTree T = .ok c.score := by
  induction hT generalizing c with
  | @entry e s hs he =>
    obtain ⟨rfl, e', he', hsame⟩ := Tree.describes_entry.1 h
    obtain ⟨entries, hentries, hmem, hscore⟩ := hc.entry_mem he'
    rw [scoreTree]
    rcases (mem_entriesAt hentries).1 hmem with hmem | ⟨hallowed, hone, rfl⟩
    · rw [LexiconView.eq_of_mem_get he hmem hsame, hscore]
    · rw [← hskips hallowed _ hs hone e he hsame, hscore]
  | @skip s hs hallowed hone =>
    obtain ⟨rfl, e', he', hsame⟩ := Tree.describes_entry.1 h
    obtain ⟨entries, hentries, hmem, hscore⟩ := hc.entry_mem he'
    rw [scoreTree]
    rcases (mem_entriesAt hentries).1 hmem with hmem | ⟨-, -, rfl⟩
    · rw [hskips hallowed _ hs hone e' hmem (Entry.same_symm hsame), hscore]
    · exact hscore
  | pair _ _ _ _ _ ihl ihr =>
    obtain ⟨⟨hrule, -⟩, a, b, hchildren, ha, hb⟩ := Tree.describes_pair.1 h
    have hscore := hc.scoreNode_eq (by simp [hchildren])
    rw [hchildren, ← hrule] at hscore
    rw [scoreTree, ihl (hc.child (by simp [hchildren])) ha, ihr (hc.child (by simp [hchildren])) hb]
    exact hscore
  | shift _ _ _ _ ih =>
    obtain ⟨⟨hrule, -⟩, a, hchildren, ha⟩ := Tree.describes_shift.1 h
    have hscore := hc.scoreNode_eq (by simp [hchildren])
    rw [hchildren, ← hrule] at hscore
    rw [scoreTree, ih (hc.child (by simp [hchildren])) ha]
    exact hscore

/-- Every cell that is a derivation stands for a tree of its category, span and score. -/
theorem Derives.exists_tree {c : Cell K} (h : t.Derives c) : ∃ T, t.IsDerivation T ∧
    T.describes c = true ∧ T.category = c.category ∧ T.span = c.span ∧
      t.scoreTree T = .ok c.score := by
  induction h with
  | @entry s entries e score hs hentries he hscore =>
    refine ⟨.entry e s, ?_, ?_, rfl, rfl, hscore⟩
    · rcases (mem_entriesAt hentries).1 he with he | ⟨hskips, hone, rfl⟩
      · exact .entry hs he
      · exact .skip hs hskips hone
    · exact Tree.describes_entry.2 ⟨rfl, e, rfl, Entry.same_refl e⟩
  | @pair l r results res score _ _ hjoin hresults hres hscore ihl ihr =>
    obtain ⟨T, hT, hl, hcategory, hspan, hx⟩ := ihl
    obtain ⟨T', hT', hr, hcategory', hspan', hx'⟩ := ihr
    refine ⟨.pair res T T', ?_, ?_, rfl, ?_, ?_⟩
    · rw [← hcategory, ← hcategory'] at hresults
      exact .pair hT hT' (by rw [hspan, hspan', hjoin]) hresults hres
    · exact Tree.describes_pair.2 ⟨⟨rfl, Category.same_refl _⟩, l, r, rfl, hl, hr⟩
    · rw [Tree.span, hspan, hspan', node_span]
    · rw [scoreTree, hx, hx']
      exact hscore
  | @shift c results res score _ hone hresults hres hscore ih =>
    obtain ⟨T, hT, hc, hcategory, hspan, hx⟩ := ih
    refine ⟨.shift res T, ?_, ?_, rfl, hspan, ?_⟩
    · rw [← hcategory] at hresults
      refine .shift hT ?_ hresults hres
      rw [← Bool.not_eq_true, Tree.isShift_iff hc]
      exact hone
    · exact Tree.describes_shift.2 ⟨⟨rfl, Category.same_refl _⟩, c, rfl, hc⟩
    · rw [scoreTree, hx]
      exact hscore

end Sentence

end Categorial
