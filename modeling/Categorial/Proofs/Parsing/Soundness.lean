import Categorial.Proofs.Chart.Walk
import Categorial.Proofs.Parsing.Derivations
import Categorial.Proofs.Scalar.Exact

/-!
What derivations are made of. Main statement: the leaves of a retained cell are entries of the
tokens that its span is made of, its other nodes are results of rules on their children, it is
scored by the sum of their scores, and its children are retained as well if it has two of them.
-/

namespace Categorial

namespace Sentence

variable {K : Type} {t : Sentence K}

/-- Whether an entry may be used at a span: it has the tokens of the span, and it is in the lexicon
or, if tokens may be skipped, skips its only token. -/
def Usable (t : Sentence K) (e : Entry) (s : Span) : Prop :=
  e.tokens = Parser.tokensOf t.tokens s ∧ (t.view.contains e = true ∨
    t.parser.config.skipsWords = true ∧ e.tokens.length = 1 ∧ e.origin = .skipping ∧
      e.category = t.parser.skipped)

theorem usable_of_mem_entriesAt {s : Span} {entries : List Entry} {e : Entry}
    (hs : t.blank.hasSpan s = true) (hentries : t.entriesAt s = .ok entries) (he : e ∈ entries) :
    t.Usable e s := by
  rcases (mem_entriesAt hentries).1 he with he | ⟨hskips, hone, rfl⟩
  · exact ⟨LexiconView.tokens_of_mem_get _ he, Or.inl (LexiconView.contains_of_mem_get _ he)⟩
  · obtain ⟨hstart, hlt, hstop⟩ := hasSpan_iff.1 hs
    refine ⟨rfl, Or.inr ⟨hskips, ?_, rfl, rfl⟩⟩
    rw [Parser.skipper, Parser.length_tokensOf hstart hstop]
    exact hone

variable [Scalar K]

/-- The cells of a derivation are derivations. -/
theorem Derives.inside {c d : Cell K} (hc : t.Derives c) (h : Cell.Inside d c) : t.Derives d := by
  induction h with
  | self => exact hc
  | child hb _ ih => exact ih (hc.child hb)

/-- The leaves of a derivation tile its span. -/
theorem Derives.tiles {c : Cell K} (h : t.Derives c) :
    Tiles c.span.start (c.leaves.map Cell.span) c.span.stop := by
  induction h with
  | entry hs =>
    rw [leaf_span, leaf, Cell.leaves_lexical]
    exact ⟨rfl, (hasSpan_iff.1 hs).2.1, rfl⟩
  | pair _ _ hjoin _ _ _ ihl ihr =>
    rw [node_span, node, Cell.leaves_pair, List.map_append]
    exact ihl.append (hjoin ▸ ihr)
  | shift _ _ _ _ _ ih =>
    rw [node_span, node, Cell.leaves_single]
    exact ih

/-- The leaves of a derivation are entries that may be used at their spans. -/
theorem Derives.usable {c : Cell K} (h : t.Derives c) :
    ∀ d ∈ c.leaves, ∃ e, d.entry? = some e ∧ t.Usable e d.span := by
  induction h with
  | entry hs hentries he =>
    rw [leaf, Cell.leaves_lexical]
    intro d hd
    rw [List.mem_singleton.1 hd]
    exact ⟨_, rfl, usable_of_mem_entriesAt hs hentries he⟩
  | pair _ _ _ _ _ _ ihl ihr =>
    rw [node, Cell.leaves_pair]
    intro d hd
    rcases List.mem_append.1 hd with hd | hd
    · exact ihl d hd
    · exact ihr d hd
  | shift _ _ _ _ _ ih =>
    rw [node, Cell.leaves_single]
    exact ih

/-- Whether the category and the name of a cell are a result of the rules on its children; the rules
for one category are not used on their own results. -/
def IsResult (t : Sentence K) (c : Cell K) : Prop :=
  (∃ l r results, c.children = [l, r] ∧
    (t.parser.grammar.applyBinary l.category r.category).result = .ok results ∧
      ⟨c.rule, c.category⟩ ∈ results) ∨
  ∃ child results, c.children = [child] ∧ child.children.length ≠ 1 ∧
    (t.parser.grammar.applyUnary child.category).result = .ok results ∧
      ⟨c.rule, c.category⟩ ∈ results

/-- The last cell of a derivation is an entry or a result. -/
theorem Derives.entry_or_isResult {c : Cell K} (h : t.Derives c) :
    (∃ e, c.entry? = some e) ∨ t.IsResult c := by
  cases h with
  | entry => exact Or.inl ⟨_, rfl⟩
  | pair _ _ _ hresults hres => exact Or.inr (Or.inl ⟨_, _, _, rfl, hresults, hres⟩)
  | shift _ hone hresults hres => exact Or.inr (Or.inr ⟨_, _, rfl, hone, hresults, hres⟩)

theorem Derives.full_iff {c : Cell K} (h : t.Derives c) : c.full = true ↔
    c.span = ⟨0, t.tokens.length⟩ ∧ t.blank.isRootType c.category.type = true := by
  have hfull : c.full = t.blank.isFullParse c.span c.category := by
    cases h <;> rfl
  rw [hfull, Chart.isFullParse, Chart.isFullSpan, t.size_blank, Bool.and_eq_true, Bool.and_eq_true,
    beq_iff_eq, beq_iff_eq]
  refine and_congr_left ?_
  intro _
  rw [← Span.mk.injEq]

/-- The score of a result, where sums are exact. -/
theorem scoreNode_eq_ok (hexact : Scalar.Exact K) {scores : List K} {rule : RuleName} {score : K} :
    t.scoreNode scores rule = .ok score ↔
      ∃ y, t.model.scoreRule rule = .ok y ∧ score = Scalar.sum scores + y := by
  rw [scoreNode, hexact.total_eq]
  cases t.model.scoreRule rule with
  | error fault => simp [bind, Except.bind]
  | ok y => simp [bind, Except.bind, hexact.plus_eq, eq_comm]

/-- Where sums are exact, a derivation is scored by the sum of the scores of its entries and of its
rules. -/
theorem Derives.score_eq (hexact : Scalar.Exact K) {c : Cell K} (h : t.Derives c) : ∃ xs ys,
    c.entries.mapM t.model.scoreEntry = .ok xs ∧ c.rules.mapM t.model.scoreRule = .ok ys ∧
      c.score = Scalar.sum xs + Scalar.sum ys := by
  induction h with
  | @entry s entries e score _ _ _ hscore =>
    refine ⟨[score], [], ?_, ?_, ?_⟩
    · rw [leaf, Cell.entries_lexical]
      exact mapM_cons_eq_ok.2 ⟨_, _, hscore, rfl, rfl⟩
    · rw [leaf, Cell.rules_lexical]
      rfl
    · rw [leaf_score, hexact.sum_singleton]
      exact (hexact.add_zero score).symm
  | pair _ _ _ _ _ hscore ihl ihr =>
    obtain ⟨xs, ys, hxs, hys, hl⟩ := ihl
    obtain ⟨xs', ys', hxs', hys', hr⟩ := ihr
    obtain ⟨y, hy, hsum⟩ := (scoreNode_eq_ok hexact).1 hscore
    refine ⟨xs ++ xs', y :: (ys ++ ys'), ?_, ?_, ?_⟩
    · rw [node, Cell.entries_pair]
      exact mapM_append_eq_ok.2 ⟨_, _, hxs, hxs', rfl⟩
    · rw [node, Cell.rules_pair]
      exact mapM_cons_eq_ok.2 ⟨_, _, hy, mapM_append_eq_ok.2 ⟨_, _, hys, hys', rfl⟩, rfl⟩
    · rw [node_score, hsum, hl, hr, hexact.sum_cons, hexact.sum_singleton, hexact.sum_append,
        hexact.sum_cons, hexact.sum_append, hexact.add_add_add_comm,
        hexact.add_assoc (Scalar.sum xs + Scalar.sum xs'), hexact.add_comm y]
  | shift _ _ _ _ hscore ih =>
    obtain ⟨xs, ys, hxs, hys, hc⟩ := ih
    obtain ⟨y, hy, hsum⟩ := (scoreNode_eq_ok hexact).1 hscore
    refine ⟨xs, y :: ys, ?_, ?_, ?_⟩
    · rw [node, Cell.entries_single]
      exact hxs
    · rw [node, Cell.rules_single]
      exact mapM_cons_eq_ok.2 ⟨_, _, hy, hys, rfl⟩
    · rw [node_score, hsum, hc, hexact.sum_singleton, hexact.sum_cons, hexact.add_assoc,
        hexact.add_comm y]

/-- What the retained cells of a span are. -/
structure SoundAt (t : Sentence K) (s : Span) (c : Cell K) : Prop where
  span : c.span = s
  tiles : Tiles s.start (c.leaves.map Cell.span) s.stop
  usable : ∀ d ∈ c.leaves, ∃ e, d.entry? = some e ∧ t.Usable e d.span
  isResult : ∀ d, Cell.Inside d c → (∃ e, d.entry? = some e) ∨ t.IsResult d
  score : Scalar.Exact K → ∃ xs ys, c.entries.mapM t.model.scoreEntry = .ok xs ∧
    c.rules.mapM t.model.scoreRule = .ok ys ∧ c.score = Scalar.sum xs + Scalar.sum ys
  full : c.full = true ↔
    s = ⟨0, t.tokens.length⟩ ∧ t.blank.isRootType c.category.type = true

theorem Derives.soundAt {c : Cell K} (h : t.Derives c) : t.SoundAt c.span c where
  span := rfl
  tiles := h.tiles
  usable := h.usable
  isResult _ hd := (h.inside hd).entry_or_isResult
  score hexact := h.score_eq hexact
  full := h.full_iff

/-- The children of a retained cell with two children are retained at the parts of its span. -/
theorem Complete.children_retained {chart : Chart K} (h : t.Complete chart) {s : Span}
    {cs : List (Cell K)} (hcs : chart.cells s = .ok cs) {c l r : Cell K} (hc : c ∈ cs)
    (hchildren : c.children = [l, r]) : ∃ lefts rights, chart.cells l.span = .ok lefts ∧
      l ∈ lefts ∧ chart.cells r.span = .ok rights ∧ r ∈ rights := by
  have hselect := t.selects_retained
  obtain ⟨os, hos, -, o, ho, rfl⟩ := mem_cellsAt hselect (h.cellsAt_eq hcs) hc
  obtain ⟨hcandidate, -⟩ := candidate_of_mem hselect hos ho
  generalize o.cell = c at *
  cases hcandidate with
  | entry => simp at hchildren
  | pair _ hlefts hrights hl hr =>
    obtain ⟨rfl, rfl⟩ : _ = l ∧ _ = r := by simpa using hchildren
    have hlspan := span_of_mem_cellsAt hselect hlefts hl
    have hrspan := span_of_mem_cellsAt hselect hrights hr
    have hleft := (derives_of_mem_cellsAt hselect hlefts hl).hasSpan
    have hright := (derives_of_mem_cellsAt hselect hrights hr).hasSpan
    refine ⟨_, _, ?_, hl, ?_, hr⟩
    · rw [h.cells_eq hleft, hlspan, hlefts]
    · rw [h.cells_eq hright, hrspan, hrights]
  | shift => simp at hchildren

/-- The cells that a span retains after a parse, with its spans of one length in any order, are
derivations of the tokens of the span, no two of them the same. The two children of a retained cell
are still retained. -/
theorem retained_sound {p : Parser K} {m : Model K} {tokens : List String} {options : ParseOptions}
    (ht : p.sentence m tokens options = .ok t) {chart : Chart K}
    (hchart : (p.chart m tokens options).result = .ok chart ∨ t.Reaches chart) {s : Span}
    {cs : List (Cell K)} (hcs : chart.cells s = .ok cs) :
    (∀ c ∈ cs, t.SoundAt s c) ∧ cs.Pairwise (fun c d => c.sameNode d = false) ∧
      ∀ c ∈ cs, ∀ l r, c.children = [l, r] → ∃ lefts rights, chart.cells l.span = .ok lefts ∧
        l ∈ lefts ∧ chart.cells r.span = .ok rights ∧ r ∈ rights := by
  have hcomplete := Parser.complete_of_chart ht hchart
  refine ⟨?_, ?_, ?_⟩
  · intro c hc
    obtain ⟨hderives, rfl⟩ := hcomplete.derives hcs hc
    exact hderives.soundAt
  · refine (hcomplete.apart hcs).imp fun {c d} hapart => ?_
    rw [← Bool.not_eq_true] at hapart ⊢
    intro hsame
    exact hapart (Cell.sameStep_of_sameNode hsame)
  · intro c hc l r hchildren
    exact hcomplete.children_retained hcs hc hchildren

/-- A rule that keeps the first one of two categories. -/
def keepFirst : BinaryRule :=
  .custom "KeepRule" ⟨"keep", .forward⟩ fun left _ => .ok [⟨⟨"keep", .forward⟩, left⟩]

/-- A parser with this rule that keeps two cells for a span and may skip tokens. -/
def keepParser : Parser Rat :=
  .create (.ofRules [keepFirst] []) ⟨.int 2, none, true, .int 1⟩ .structural .empty false

/-- A model without entries and features. -/
def emptyModel : Model Rat := ⟨.empty, [], [], [], .empty⟩

/-- Two of the three derivations of two skipped tokens are retained, and they are sound. -/
theorem retained_sound_skipped : ∃ t chart cs,
    keepParser.sentence emptyModel ["a", "b"] .plain = .ok t ∧
    (keepParser.chart emptyModel ["a", "b"] .plain).result = .ok chart ∧
    chart.cells ⟨0, 2⟩ = .ok cs ∧ cs.length = 2 ∧ ∀ c ∈ cs, t.SoundAt ⟨0, 2⟩ c := by
  have hlength : ((keepParser.chart emptyModel ["a", "b"] .plain).result.bind fun chart =>
      (chart.cells ⟨0, 2⟩).map List.length).toOption = some 2 := by decide +kernel
  cases hchart : (keepParser.chart emptyModel ["a", "b"] .plain).result with
  | error fault => simp [hchart, Except.bind, Except.toOption] at hlength
  | ok chart =>
    cases hcs : chart.cells ⟨0, 2⟩ with
    | error fault => simp [hchart, hcs, Except.bind, Except.map, Except.toOption] at hlength
    | ok cs =>
      obtain ⟨t, ht⟩ := Parser.exists_sentence hchart
      simp only [hchart, hcs, Except.bind, Except.map, Except.toOption,
        Option.some.injEq] at hlength
      exact ⟨t, chart, cs, ht, rfl, hcs, hlength, (retained_sound ht (Or.inl hchart) hcs).1⟩

end Sentence

end Categorial
