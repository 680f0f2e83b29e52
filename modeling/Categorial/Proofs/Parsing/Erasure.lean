import Categorial.Proofs.Lexicon.Reads
import Categorial.Proofs.Lexicon.Translation
import Categorial.Proofs.Parsing.Ample
import Categorial.Proofs.Parsing.Outcome
import Categorial.Proofs.Parsing.Outline
import Categorial.Proofs.Rule.Erasure
import Categorial.Proofs.SyntaxType.Names

/-!
Parses without meanings: the entries lose their meanings, and so does the category of skipped
tokens. Main statement: meanings only filter. Every cell of a parse with meanings, whatever its
beams cut, has a cell of the same span in the parse without meanings that nothing was cut from, with
the same outline but for the meanings; so a sentence with a full parse has one without meanings. For
this, types that have one name must be one type where two entries of a span, or two targets of one
label, have it.
-/

namespace Categorial

/-- The entry without its meaning. -/
def Entry.erased (e : Entry) : Entry := { e with category := e.category.erased }

/-- The lexicon without meanings. -/
def Lexicon.erased (lexicon : Lexicon) : Lexicon := lexicon.translate Entry.erased

theorem Entry.translation_erased : Translation erased id where
  tokens _ := rfl
  injective := Function.injective_id
  same a b h := by
    rw [same, Bool.and_eq_true] at h ⊢
    exact ⟨h.1, Category.erased_same h.2⟩

namespace Outline

mutual

/-- The outline without its meanings. -/
def erased : Outline → Outline
  | leaf tokens category span => .leaf tokens category.erased span
  | node rule category span children => .node rule category.erased span (erasedAll children)

/-- The outlines without their meanings. -/
def erasedAll : List Outline → List Outline
  | [] => []
  | o :: os => erased o :: erasedAll os

end

theorem length_erasedAll (os : List Outline) : (erasedAll os).length = os.length := by
  induction os with
  | nil => rfl
  | cons o os ih => rw [erasedAll, List.length_cons, List.length_cons, ih]

end Outline

/-- What a cell without meanings has in common with the cell itself. -/
theorem Cell.parts_of_erased {K : Type} {c c' : Cell K} (h : c'.outline = c.outline.erased) :
    c'.category = c.category.erased ∧ c'.span = c.span ∧
      c'.children.length = c.children.length := by
  cases c with
  | lexical entry span =>
    cases c' with
    | lexical =>
      simp only [outline, Outline.erased, Outline.leaf.injEq] at h
      exact ⟨h.2.1, h.2.2, rfl⟩
    | derived => simp [outline, Outline.erased] at h
  | derived category rule children span =>
    cases c' with
    | lexical => simp [outline, Outline.erased] at h
    | derived =>
      simp only [outline, Outline.erased, Outline.node.injEq, outlines_eq_map] at h
      obtain ⟨-, hcategory, hspan, hchildren⟩ := h
      have hlength := congrArg List.length hchildren
      rw [Outline.length_erasedAll, List.length_map, List.length_map] at hlength
      exact ⟨hcategory, hspan, hlength⟩

namespace Sentence

variable {K : Type} {t t' : Sentence K}

/-- What two sentences are, if the second one is the first one without meanings. -/
structure Erases (t t' : Sentence K) : Prop where
  tokens : t'.tokens = t.tokens
  grammar : t'.parser.grammar = t.parser.grammar
  skips : t'.parser.config.skipsWords = t.parser.config.skipsWords
  root : t'.blank.root = t.blank.root
  skipped : t'.parser.skipped = t.parser.skipped.erased
  get_eq : ∀ tokens, t'.view.get tokens =
    distinct Entry.same ((t.view.get tokens).map Entry.erased)

/-- Whether entries of one span whose types have one name have one type. -/
def EntriesAlike (t : Sentence K) : Prop :=
  ∀ s entries, t.entriesAt s = .ok entries → ∀ e ∈ entries, ∀ e' ∈ entries,
    e.category.type.same e'.category.type = true → e.category.type = e'.category.type

/-- Entries are alike if their types were built from a system and so can be read from their
names. -/
theorem entriesAlike_of_built {system : SyntaxSystem} (hnamed : system.Named)
    (hview : ∀ e ∈ t.view.entries, ∃ u, e.category.type = some u ∧ Built system u)
    (hskipped : ∃ u, t.parser.skipped.type = some u ∧ Built system u) :
    t.EntriesAlike := by
  intro s entries hentries
  have hbuilt : ∀ e ∈ entries, ∃ u, e.category.type = some u ∧ Built system u := by
    intro e he
    rcases (Sentence.mem_entriesAt hentries).1 he with he | ⟨-, -, rfl⟩
    · rw [LexiconView.get_eq_filter] at he
      exact hview e (List.mem_filter.1 he).1
    · exact hskipped
  intro e he e' he' hsame
  obtain ⟨u, hu, hbu⟩ := hbuilt e he
  obtain ⟨u', hu', hbu'⟩ := hbuilt e' he'
  rw [hu, hu'] at hsame ⊢
  rw [(SyntaxType.typing_same_iff_eq hnamed hbu hbu').1 hsame]

namespace Erases

/-- The entries of a span without meanings are entries without their meanings, and each entry is
one of them up to equality. -/
theorem mem_entriesAt (h : t.Erases t') {s : Span} {entries entries' : List Entry}
    (hentries : t.entriesAt s = .ok entries) (hentries' : t'.entriesAt s = .ok entries') :
    (∀ e' ∈ entries', ∃ e ∈ entries, e'.tokens = e.tokens ∧ e'.category = e.category.erased) ∧
      ∀ e ∈ entries, ∃ e' ∈ entries', e'.same e.erased = true := by
  constructor
  · intro e' he'
    rcases (Sentence.mem_entriesAt hentries').1 he' with he' | ⟨hskips, hone, rfl⟩
    · rw [h.get_eq, h.tokens] at he'
      obtain ⟨e, he, rfl⟩ := List.mem_map.1 (mem_of_mem_distinct he')
      exact ⟨e, (Sentence.mem_entriesAt hentries).2 (Or.inl he), rfl, rfl⟩
    · refine ⟨_, (Sentence.mem_entriesAt hentries).2 (Or.inr ⟨h.skips ▸ hskips, hone, rfl⟩), ?_, ?_⟩
      · rw [h.tokens]
        rfl
      · exact h.skipped
  · intro e he
    rcases (Sentence.mem_entriesAt hentries).1 he with he | ⟨hskips, hone, rfl⟩
    · obtain ⟨e', he', hsame⟩ := exists_distinct Entry.same_refl (List.mem_map_of_mem he)
      refine ⟨e', (Sentence.mem_entriesAt hentries').2 (Or.inl ?_), hsame⟩
      rwa [h.get_eq, h.tokens]
    · refine ⟨_, (Sentence.mem_entriesAt hentries').2 (Or.inr ⟨h.skips ▸ hskips, hone, rfl⟩), ?_⟩
      rw [h.tokens, h.skipped]
      exact Entry.same_refl _

theorem hasSpan (h : t.Erases t') (s : Span) : t'.blank.hasSpan s = t.blank.hasSpan s := by
  rw [Bool.eq_iff_iff, hasSpan_iff, hasSpan_iff, h.tokens]

variable [Scalar K] {c : Cell K}

/-- What is left of a cell without its meanings is retained. -/
def Keeps (t' : Sentence K) (c : Cell K) : Prop :=
  ∃ cs, t'.cellsAt t'.retained c.span = .ok cs ∧ ∃ c' ∈ cs, c'.outline = c.outline.erased

theorem keeps_entry (h : t.Erases t') (hample : t'.Ample) (hentries : t.EntriesAlike) {s : Span}
    {entries : List Entry} {e : Entry} (hs : t'.blank.hasSpan s = true)
    (hstored : t.entriesAt s = .ok entries) (he : e ∈ entries) (score : K) :
    Keeps t' (t.leaf e s score) := by
  obtain ⟨cs, hcs⟩ := hample.exists_cellsAt hs
  obtain ⟨entries', hstored'⟩ : ∃ entries', t'.entriesAt s = .ok entries' := by
    obtain ⟨os, hos⟩ := hample.ends s hs
    obtain ⟨first, rest, hfirst, -⟩ := candidates_eq_ok hos
    obtain ⟨entries', hentries', -⟩ := bind_eq_ok.1 hfirst
    exact ⟨entries', hentries'⟩
  obtain ⟨hback, hforth⟩ := h.mem_entriesAt hstored hstored'
  obtain ⟨e', he', hsame⟩ := hforth e he
  -- the first one of the equal entries is retained, and its type is the same one
  obtain ⟨first, hfirst, hsame'⟩ := exists_distinct Entry.same_refl he'
  have hsame := Entry.same_trans hsame' hsame
  obtain ⟨e'', he'', htokens, hcategory⟩ := hback first (mem_of_mem_distinct hfirst)
  have hmem := (hample.mem_leaves hs hcs hstored' rfl).2 ⟨first, hfirst, rfl⟩
  refine ⟨cs, hcs, _, hmem, ?_⟩
  rw [Entry.same, Bool.and_eq_true, beq_iff_eq] at hsame
  obtain ⟨hsametokens, hsamecategory⟩ := hsame
  rw [hcategory, Category.same, Bool.and_eq_true] at hsamecategory
  have htype := hentries s entries hstored e'' he'' e he hsamecategory.1
  rw [leafOf, outline_leaf, outline_leaf, Outline.erased, hsametokens, hcategory, Category.erased,
    htype]
  rfl

theorem keeps_pair (h : t.Erases t') (hample : t'.Ample) (hgrammar : t.parser.grammar.Filters)
    {l r : Cell K} {results : List RuleResult} {res : RuleResult} (hl : Keeps t' l)
    (hr : Keeps t' r) (hls : t'.blank.hasSpan l.span = true) (hrs : t'.blank.hasSpan r.span = true)
    (hjoin : l.span.stop = r.span.start)
    (hresults : (t.parser.grammar.applyBinary l.category r.category).result = .ok results)
    (hres : res ∈ results) (score : K) :
    Keeps t' (t.node [l, r] res ⟨l.span.start, r.span.stop⟩ score) := by
  obtain ⟨lefts, hlefts, l', hl', houtline⟩ := hl
  obtain ⟨rights, hrights, r', hr', houtline'⟩ := hr
  obtain ⟨hlcategory, -, -⟩ := Cell.parts_of_erased houtline
  obtain ⟨hrcategory, -, -⟩ := Cell.parts_of_erased houtline'
  rw [hasSpan_iff] at hls hrs
  have hparts := Parser.mem_splits_of_join hls.2.1 hrs.2.1 hjoin
  have hs : t'.blank.hasSpan ⟨l.span.start, r.span.stop⟩ = true := by
    rw [hasSpan_iff]
    dsimp only
    omega
  obtain ⟨cs, hcs⟩ := hample.exists_cellsAt hs
  obtain ⟨results', hresults'⟩ := hgrammar.applyBinary_ok l.category r.category
  have hres' := hgrammar.exists_binary hresults hres hresults'
  rw [← hlcategory, ← hrcategory, ← h.grammar] at hresults'
  obtain ⟨given, hgiven, hrule, score', hmem⟩ :=
    hample.exists_pair hs hparts hlefts hrights hl' hr' hresults' hres' hcs
  rw [hlcategory, hrcategory, h.grammar] at hresults'
  obtain rfl := hgrammar.eq_of_binary hresults' hgiven hres' hrule
  refine ⟨cs, hcs, _, hmem, ?_⟩
  simp [Outline.erased, Outline.erasedAll, houtline, houtline']

theorem keeps_shift (h : t.Erases t') (hample : t'.Ample) (hgrammar : t.parser.grammar.Filters)
    (htargets : t.parser.grammar.TargetsAlike) {results : List RuleResult} {res : RuleResult}
    (hc : Keeps t' c) (hs : t'.blank.hasSpan c.span = true) (hone : c.children.length ≠ 1)
    (hresults : (t.parser.grammar.applyUnary c.category).result = .ok results)
    (hres : res ∈ results) (score : K) : Keeps t' (t.node [c] res c.span score) := by
  obtain ⟨cs, hcs, c', hc', houtline⟩ := hc
  obtain ⟨hcategory, -, hlength⟩ := Cell.parts_of_erased houtline
  obtain ⟨results', hresults'⟩ := hgrammar.applyUnary_ok c.category
  have hres' := hgrammar.exists_unary hresults hres hresults'
  rw [← hcategory, ← h.grammar] at hresults'
  rw [← hlength] at hone
  obtain ⟨given, hgiven, hrule, hsame, score', hmem⟩ :=
    hample.exists_shift hs hcs hc' hone hresults' hres'
  rw [hcategory, h.grammar] at hresults'
  rw [Category.same, Bool.and_eq_true] at hsame
  obtain rfl := hgrammar.eq_of_unary htargets hresults' hgiven hres' hrule hsame.1
  refine ⟨cs, hcs, _, hmem, ?_⟩
  simp [Outline.erased, Outline.erasedAll, houtline]

/-- Without meanings, what is left of every derivation is retained. -/
theorem keeps_of_derives (h : t.Erases t') (hample : t'.Ample)
    (hgrammar : t.parser.grammar.Filters) (hentries : t.EntriesAlike)
    (htargets : t.parser.grammar.TargetsAlike) (hc : t.Derives c) : Keeps t' c := by
  induction hc with
  | entry hs hstored he =>
    rw [← h.hasSpan] at hs
    exact h.keeps_entry hample hentries hs hstored he _
  | pair hl hr hjoin hresults hres _ ihl ihr =>
    have hls := (h.hasSpan _).trans hl.hasSpan
    have hrs := (h.hasSpan _).trans hr.hasSpan
    exact h.keeps_pair hample hgrammar ihl ihr hls hrs hjoin hresults hres _
  | shift hc hone hresults hres _ ih =>
    have hs := (h.hasSpan _).trans hc.hasSpan
    exact h.keeps_shift hample hgrammar htargets ih hs hone hresults hres _

/-- If the parse without meanings has no full parse, there is none. -/
theorem fullParses_eq_nil (h : t.Erases t') {chart chart' : Chart K} (hchart : t.Complete chart)
    (hchart' : t'.Complete chart') (hkept : ∀ c, t.Derives c → Keeps t' c)
    (hnone : chart'.fullParses = .ok []) : chart.fullParses = .ok [] := by
  obtain ⟨cs, hcs, -⟩ := hchart.fullParses_eq
  rw [hcs, Except.ok.injEq, List.eq_nil_iff_forall_not_mem]
  intro c hc
  obtain ⟨hfull, all, hall, hc⟩ := (hchart.mem_fullParses hcs).1 hc
  obtain ⟨hderives, hspan⟩ := hchart.derives hall hc
  obtain ⟨all', hall', c', hc', houtline⟩ := hkept c hderives
  rw [hspan, ← hchart'.cells_eq ((h.hasSpan _).trans (hspan ▸ hderives.hasSpan)),
    ← h.tokens] at hall'
  obtain ⟨hcategory, hspan', -⟩ := Cell.parts_of_erased houtline
  have hderives' := (hchart'.derives hall' hc').1
  refine List.not_mem_nil ((hchart'.mem_fullParses hnone).2 ⟨?_, all', hall', hc'⟩)
  obtain ⟨hwhole, hroot⟩ := hderives.full_iff.1 hfull
  refine hderives'.full_iff.2 ⟨by rw [hspan', hwhole, h.tokens], ?_⟩
  rw [Chart.isRootType] at hroot ⊢
  rwa [h.root, hcategory, Category.erased_type]

end Erases

end Sentence

namespace Parser

variable {K : Type} {p p' : Parser K} {m m' : Model K} {tokens : List String}
  {options options' : ParseOptions} {t t' : Sentence K}

/-- What two parses are, if the second one is the first one without meanings, with any scores and
beams. -/
structure Erases (p p' : Parser K) (m m' : Model K) (options options' : ParseOptions) : Prop where
  grammar : p'.grammar = p.grammar
  skips : p'.config.skipsWords = p.config.skipsWords
  root : p'.config.root = p.config.root
  skipped : p'.skipped = p.skipped.erased
  lexicon : m'.lexicon = m.lexicon.erased
  extra : options'.extra = options.extra.map Lexicon.erased

theorem Erases.sentence (h : p.Erases p' m m' options options')
    (ht : p.sentence m tokens options = .ok t) (ht' : p'.sentence m' tokens options' = .ok t') :
    t.Erases t' := by
  obtain ⟨hparser, -, hroot, -⟩ := parts_of_sentence ht
  obtain ⟨hparser', -, hroot', -⟩ := parts_of_sentence ht'
  obtain ⟨hview, htokens⟩ := view_of_sentence ht
  obtain ⟨hview', htokens'⟩ := view_of_sentence ht'
  refine ⟨by rw [htokens, htokens'], by rw [hparser, hparser', h.grammar],
    by rw [hparser, hparser', h.skips], by rw [hroot, hroot', h.root],
    by rw [hparser, hparser', h.skipped], fun tokens => ?_⟩
  rw [hview, hview', h.extra]
  exact get_lexicon_translate Entry.translation_erased h.lexicon options.extra tokens

variable [Scalar K] {chart chart' : Chart K}

/-- For a grammar of applications, compositions, skipping rules, initiations and completions of
coordinations, and shifting rules, with any services and functions: every cell of a parse, whatever
its beams cut, has a cell of the same span in the parse without meanings, if that one was never cut,
with the same tokens, rules and types and no meaning anywhere; and a sentence without a full parse
there has none. For this, entries of a span whose types have one name must have one type, and so
must the targets of shifting rules of one label and one source. -/
theorem meanings_filter (h : p.Erases p' m m' options options') (hgrammar : p.grammar.Filters)
    (ht : p.sentence m tokens options = .ok t) (ht' : p'.sentence m' tokens options' = .ok t')
    (hchart : (p.chart m tokens options).result = .ok chart ∨ t.Reaches chart)
    (hchart' : (p'.chart m' tokens options').result = .ok chart' ∨ t'.Reaches chart')
    (hkeeps : chart'.keepsAll = true) (hentries : t.EntriesAlike)
    (htargets : p.grammar.TargetsAlike) :
    (∀ s cs, chart.cells s = .ok cs → ∃ cs', chart'.cells s = .ok cs' ∧
      ∀ c ∈ cs, ∃ c' ∈ cs', c'.outline = c.outline.erased) ∧
    (Derivation.ofChart chart' = .ok [] → Derivation.ofChart chart = .ok []) := by
  have hcomplete := complete_of_chart ht hchart
  have hcomplete' := complete_of_chart ht' hchart'
  have hample := hcomplete'.ample hkeeps
  have herases := h.sentence ht ht'
  obtain ⟨hparser, -⟩ := parts_of_sentence ht
  rw [← hparser] at hgrammar htargets
  have hkept : ∀ c, t.Derives c → Sentence.Erases.Keeps t' c := fun c hc =>
    herases.keeps_of_derives hample hgrammar hentries htargets hc
  constructor
  · intro s cs hcs
    have hs := (herases.hasSpan s).trans (hcomplete.hasSpan_of_cells hcs)
    obtain ⟨cs', hcs'⟩ := hample.exists_cellsAt hs
    refine ⟨cs', by rw [hcomplete'.cells_eq hs, hcs'], fun c hc => ?_⟩
    obtain ⟨hderives, rfl⟩ := hcomplete.derives hcs hc
    obtain ⟨cs'', hcs'', hmem⟩ := hkept c hderives
    obtain rfl := Except.ok.inj (hcs'.symm.trans hcs'')
    exact hmem
  · rw [hcomplete.ofChart_eq_nil_iff, hcomplete'.ofChart_eq_nil_iff]
    exact herases.fullParses_eq_nil hcomplete hcomplete' hkept

/-- A model with some entries and without features. -/
def plainModel (entries : List Entry) : Model Rat := ⟨.ofList entries, [], [], [], .empty⟩

/-- The model without meanings. -/
def bareModel (entries : List Entry) : Model Rat :=
  { plainModel entries with lexicon := (plainModel entries).lexicon.erased }

/-- A parser with forward applications of functions and some shifting rules. -/
def forwardParser (shifts : List UnaryRule) : Parser Rat :=
  ⟨⟨[.application .forward (.calling .stock Services.usualRejections)], shifts⟩,
    ⟨.int 50, none, false, .int 1⟩, .structural, .empty, false⟩

theorem erases_forwardParser (shifts : List UnaryRule) (entries : List Entry) :
    (forwardParser shifts).Erases (forwardParser shifts) (plainModel entries) (bareModel entries)
      .plain .plain :=
  ⟨rfl, rfl, rfl, rfl, rfl, rfl⟩

theorem filters_forwardParser {shifts : List UnaryRule}
    (hshifts : ∀ rule ∈ shifts, ∃ I label source target function,
      rule = .shift I label source target function) : (forwardParser shifts).grammar.Filters where
  binary rule hrule := by
    obtain rfl := List.mem_singleton.1 hrule
    exact ⟨.application _ _, by simp⟩
  unary := hshifts

/-- A function that pairs a name with its argument. -/
def tagOf (name : String) : Value := .func ⟨name, .named, .tag none⟩ [] []

def nounPhrase : SyntaxType := .primitive "NP"

def verbPhrase : SyntaxType := .slash .forward (.primitive "S") nounPhrase

/-- A verb and its noun phrase: the sentence has a meaning, and none without theirs. -/
theorem meanings_filter_application :
    let entries : List Entry := [⟨["see"], ⟨some verbPhrase, tagOf "see"⟩, .fixed, []⟩,
      ⟨["ann"], ⟨some nounPhrase, .text "ann"⟩, .fixed, []⟩]
    ∃ (t t' : Sentence Rat) (chart chart' : Chart Rat) (cs cs' : List (Cell Rat)),
      (forwardParser []).Erases (forwardParser []) (plainModel entries) (bareModel entries)
        .plain .plain ∧
      (forwardParser []).grammar.Filters ∧ (forwardParser []).grammar.TargetsAlike ∧
      (forwardParser []).sentence (plainModel entries) ["see", "ann"] .plain = .ok t ∧
      (forwardParser []).sentence (bareModel entries) ["see", "ann"] .plain = .ok t' ∧
      t.EntriesAlike ∧ chart'.keepsAll = true ∧ chart.cells ⟨0, 2⟩ = .ok cs ∧
      cs.map (fun c => c.category.meaning.isNone) = [false] ∧ chart'.cells ⟨0, 2⟩ = .ok cs' ∧
      (∀ c ∈ cs, ∃ c' ∈ cs', c'.outline = c.outline.erased) ∧
      (Derivation.ofChart chart' = .ok [] → Derivation.ofChart chart = .ok []) := by
  intro entries
  have hfilters : (forwardParser []).grammar.Filters := filters_forwardParser (by simp)
  have htargets : (forwardParser []).grammar.TargetsAlike := by
    intro I label source target function I' source' target' function' hrule
    cases hrule
  obtain ⟨t, chart, ht, hchart, -, hcheck⟩ := exists_chart (forwardParser []) (plainModel entries)
    ["see", "ann"] .plain (fun chart => (chart.cells ⟨0, 2⟩).toOption.any fun cs =>
      cs.map (fun c => c.category.meaning.isNone) == [false]) (by decide +kernel)
  obtain ⟨t', chart', ht', hchart', hkeeps, -⟩ := exists_chart (forwardParser [])
    (bareModel entries) ["see", "ann"] .plain (fun _ => true) (by decide +kernel)
  have hbuilt : ∀ e ∈ t.view.entries, ∃ u, e.category.type = some u ∧ Built .default u := by
    have hnoun : Built .default nounPhrase := .defined rfl
    have hverb : Built .default verbPhrase := .slash _ (.defined rfl) hnoun
    obtain rfl := Except.ok.inj ht
    intro e he
    rcases List.mem_cons.1 he with rfl | he
    · exact ⟨_, rfl, hverb⟩
    · obtain rfl := List.mem_singleton.1 he
      exact ⟨_, rfl, hnoun⟩
  have halike : t.EntriesAlike := by
    refine Sentence.entriesAlike_of_built named_default hbuilt ?_
    obtain rfl := Except.ok.inj ht
    exact ⟨_, rfl, .empty⟩
  have herases := erases_forwardParser [] entries
  obtain ⟨hcells, hnone⟩ := meanings_filter herases hfilters ht ht' (.inl hchart) (.inl hchart')
    hkeeps halike htargets
  cases hcs : chart.cells ⟨0, 2⟩ with
  | error fault => simp [hcs, Except.toOption] at hcheck
  | ok cs =>
    obtain ⟨cs', hcs', hmem⟩ := hcells _ _ hcs
    simp only [hcs, Except.toOption, Option.any_some, beq_iff_eq] at hcheck
    exact ⟨t, t', chart, chart', cs, cs', herases, hfilters, htargets, ht, ht', halike, hkeeps, hcs,
      hcheck, hcs', hmem, hnone⟩

/-- Whether a sentence has a full parse and none without meanings, though no beam was full. -/
def Hidden (shifts : List UnaryRule) (entries : List Entry) (tokens : List String) : Prop :=
  ∃ (t t' : Sentence Rat) (chart chart' : Chart Rat) (ds : List (Derivation Rat)),
    (forwardParser shifts).Erases (forwardParser shifts) (plainModel entries) (bareModel entries)
      .plain .plain ∧
    (forwardParser shifts).grammar.Filters ∧
    (forwardParser shifts).sentence (plainModel entries) tokens .plain = .ok t ∧
    (forwardParser shifts).sentence (bareModel entries) tokens .plain = .ok t' ∧
    ((forwardParser shifts).chart (plainModel entries) tokens .plain).result = .ok chart ∧
    ((forwardParser shifts).chart (bareModel entries) tokens .plain).result = .ok chart' ∧
    chart'.keepsAll = true ∧ Derivation.ofChart chart = .ok ds ∧ ds ≠ [] ∧
    Derivation.ofChart chart' = .ok []

theorem hidden_of_runs {shifts : List UnaryRule} {entries : List Entry} {tokens : List String}
    (hshifts : ∀ rule ∈ shifts, ∃ I label source target function,
      rule = .shift I label source target function)
    (hcheck : (((forwardParser shifts).chart (plainModel entries) tokens .plain).result.toOption.any
      fun chart => chart.keepsAll && (Derivation.ofChart chart).toOption.any (!·.isEmpty)) = true)
    (hcheck' : (((forwardParser shifts).chart (bareModel entries) tokens .plain).result.toOption.any
      fun chart => chart.keepsAll && (Derivation.ofChart chart).toOption.any (·.isEmpty)) = true) :
    Hidden shifts entries tokens := by
  obtain ⟨t, chart, ht, hchart, -, hparses⟩ := exists_chart _ _ _ _ _ hcheck
  obtain ⟨t', chart', ht', hchart', hkeeps, hnone⟩ := exists_chart _ _ _ _ _ hcheck'
  cases hds : Derivation.ofChart chart with
  | error fault => simp [hds, Except.toOption] at hparses
  | ok ds =>
    cases hds' : Derivation.ofChart chart' with
    | error fault => simp [hds', Except.toOption] at hnone
    | ok ds' =>
      simp only [hds, hds', Except.toOption, Option.any_some, List.isEmpty_iff, Bool.not_eq_true',
        List.isEmpty_eq_false_iff] at hparses hnone
      subst hnone
      exact ⟨t, t', chart, chart', ds, erases_forwardParser shifts entries,
        filters_forwardParser hshifts, ht, ht', hchart, hchart', hkeeps, hds, hparses, hds'⟩

/-- Two entries of a token, or two targets of a label, whose types have one name: without their
meanings only the first one is left. -/
theorem meanings_hiding :
    Hidden [] [⟨["w"], ⟨some (.primitive "S/NP"), .text "a"⟩, .fixed, []⟩,
      ⟨["w"], ⟨some verbPhrase, tagOf "f"⟩, .fixed, []⟩,
      ⟨["v"], ⟨some nounPhrase, .text "b"⟩, .fixed, []⟩] ["w", "v"] ∧
    Hidden [.shift .stock "lift" (some (.primitive "N")) (some (.primitive "S/NP")) (tagOf "g"),
        .shift .stock "lift" (some (.primitive "N")) (some verbPhrase) .none]
      [⟨["w"], ⟨some (.primitive "N"), tagOf "f"⟩, .fixed, []⟩,
      ⟨["v"], ⟨some nounPhrase, .text "b"⟩, .fixed, []⟩] ["w", "v"] := by
  constructor
  · exact hidden_of_runs (by simp) (by decide +kernel) (by decide +kernel)
  · exact hidden_of_runs (by simp) (by decide +kernel) (by decide +kernel)

end Parser

end Categorial
