import Categorial.Proofs.Lexicon.Translation
import Categorial.Proofs.Number.Sums
import Categorial.Proofs.Parsing.Ample
import Categorial.Proofs.Parsing.Outline
import Categorial.Proofs.Parsing.Totality
import Categorial.Proofs.Rule.Mirror

/-!
Parses in a mirror: the tokens of the sentence and of the entries are reversed, and every slash is
turned to the other side. Main statement: where no beam loses a cell, a span of the reversed
sentence has the mirrored categories of the span of the same tokens, each as often and with the same
scores.
-/

namespace Categorial

/-- The span of the same tokens in the reversed sentence of `n` tokens. -/
def Span.mirror (n : Int) (s : Span) : Span := ⟨n - s.stop, n - s.start⟩

@[simp] theorem Span.mirror_mirror (n : Int) (s : Span) : (s.mirror n).mirror n = s := by
  simp [mirror]

@[simp] theorem Span.length_mirror (n : Int) (s : Span) : (s.mirror n).length = s.length := by
  simp only [length, mirror]
  omega

theorem take_drop_reverse {α : Type} (xs : List α) {i j : Nat} (hij : i ≤ j)
    (hj : j ≤ xs.length) :
    (xs.reverse.drop (xs.length - j)).take (j - i) = ((xs.drop i).take (j - i)).reverse := by
  rw [List.drop_reverse, List.take_reverse, List.length_take, Nat.sub_sub_self hj,
    Nat.min_eq_left hj, Nat.sub_sub_self hij, List.drop_take]

/-- The tokens of the mirrored span in the reversed sentence are those of the span, reversed. -/
theorem Parser.tokensOf_reverse {tokens : List String} {s : Span} (hstart : 0 ≤ s.start)
    (hlt : s.start < s.stop) (hstop : s.stop ≤ tokens.length) :
    tokensOf tokens.reverse (s.mirror tokens.length) = (tokensOf tokens s).reverse := by
  have hfirst : ((tokens.length : Int) - s.stop).toNat = tokens.length - s.stop.toNat := by omega
  have hlength : ((tokens.length : Int) - s.start - (tokens.length - s.stop)).toNat =
      s.stop.toNat - s.start.toNat := by omega
  have hspan : (s.stop - s.start).toNat = s.stop.toNat - s.start.toNat := by omega
  simp only [tokensOf, Span.mirror]
  rw [hfirst, hlength, hspan, take_drop_reverse tokens (by omega) (by omega)]

/-- The entry with its tokens reversed and its type mirrored. The entries that are linked to it are
left as they are, since a parse does not look at them. -/
def Entry.mirror (e : Entry) : Entry :=
  { e with tokens := e.tokens.reverse, category := e.category.mirror }

@[simp] theorem Entry.mirror_mirror (e : Entry) : e.mirror.mirror = e := by
  cases e
  simp [mirror]

@[simp] theorem Entry.mirror_same (a b : Entry) : a.mirror.same b.mirror = a.same b := by
  rw [Bool.eq_iff_iff]
  simp [same, mirror]

theorem Entry.translation_mirror : Translation mirror List.reverse where
  tokens _ := rfl
  injective := List.reverse_injective
  same a b h := by rwa [mirror_same]

theorem Entry.create_mirror (tokens : List String) (c : Category) (origin : Origin)
    (linked : List Entry) : create tokens.reverse c.mirror origin linked =
      (create tokens c origin linked).map mirror := by
  rw [create, create, Category.keyFault?_mirror]
  cases c.keyFault? <;> rfl

/-- The lexicon of the mirrored entries. -/
def Lexicon.mirror (lexicon : Lexicon) : Lexicon := lexicon.translate Entry.mirror

namespace Outline

mutual

/-- The outline with its children in the other order and its rules in the other direction. -/
def mirror (n : Int) : Outline → Outline
  | leaf tokens category span => .leaf tokens.reverse category.mirror (span.mirror n)
  | node rule category span children =>
    .node rule.flip category.mirror (span.mirror n) (mirrorAll n children).reverse

/-- The mirrored outlines. -/
def mirrorAll (n : Int) : List Outline → List Outline
  | [] => []
  | o :: os => mirror n o :: mirrorAll n os

end

theorem mirrorAll_eq_map (n : Int) (os : List Outline) : mirrorAll n os = os.map (mirror n) := by
  induction os with
  | nil => rfl
  | cons o os ih => rw [mirrorAll, List.map_cons, ih]

mutual

theorem mirror_mirror (n : Int) : ∀ o : Outline, (o.mirror n).mirror n = o
  | leaf tokens category span => by simp [mirror]
  | node rule category span children => by
    rw [mirror, mirror, mirrorAll_eq_map n (mirrorAll n children).reverse, List.map_reverse,
      List.reverse_reverse, ← mirrorAll_eq_map, mirrorAll_mirrorAll n children]
    simp

theorem mirrorAll_mirrorAll (n : Int) : ∀ os : List Outline, mirrorAll n (mirrorAll n os) = os
  | [] => rfl
  | o :: os => by rw [mirrorAll, mirrorAll, mirror_mirror n o, mirrorAll_mirrorAll n os]

end

theorem category_mirror (n : Int) (o : Outline) :
    (o.mirror n).category = o.category.mirror := by
  cases o <;> rfl

end Outline

theorem Cell.category_of_mirror {K : Type} {c c' : Cell K} {n : Int}
    (h : c'.outline = c.outline.mirror n) : c'.category = c.category.mirror := by
  rw [← category_outline, h, Outline.category_mirror, category_outline]

namespace Sentence

variable {K : Type} {t t' : Sentence K}

/-- What two sentences are that mirror each other. -/
structure Mirrors (t t' : Sentence K) : Prop where
  tokens : t'.tokens = t.tokens.reverse
  grammar : t'.parser.grammar = t.parser.grammar
  skips : t'.parser.config.skipsWords = t.parser.config.skipsWords
  skipped : t'.parser.skipped = t.parser.skipped.mirror
  get_eq : ∀ tokens, t'.view.get tokens.reverse = (t.view.get tokens).map Entry.mirror

namespace Mirrors

theorem symm (h : t.Mirrors t') : t'.Mirrors t where
  tokens := by rw [h.tokens, List.reverse_reverse]
  grammar := h.grammar.symm
  skips := h.skips.symm
  skipped := by rw [h.skipped, Category.mirror_mirror]
  get_eq tokens := by
    have hget := congrArg (List.map Entry.mirror) (h.get_eq tokens.reverse)
    rw [List.reverse_reverse, List.map_map] at hget
    simp [hget, Function.comp_def]

theorem length_eq (h : t.Mirrors t') : t'.tokens.length = t.tokens.length := by
  rw [h.tokens, List.length_reverse]

theorem hasSpan (h : t.Mirrors t') (s : Span) :
    t'.blank.hasSpan (s.mirror t.tokens.length) = t.blank.hasSpan s := by
  rw [Bool.eq_iff_iff, hasSpan_iff, hasSpan_iff, h.length_eq, Span.mirror]
  dsimp only
  omega

/-- The entries of a span are mirrored. -/
theorem entriesAt_eq (h : t.Mirrors t') {s : Span} (hs : t.blank.hasSpan s = true) :
    t'.entriesAt (s.mirror t.tokens.length) = (t.entriesAt s).map (List.map Entry.mirror) := by
  obtain ⟨hstart, hlt, hstop⟩ := hasSpan_iff.1 hs
  have htokens := Parser.tokensOf_reverse hstart hlt hstop
  rw [entriesAt, entriesAt, h.skips, h.skipped, h.tokens, htokens, Span.length_mirror, h.get_eq,
    Entry.create_mirror]
  split
  · cases Entry.create (Parser.tokensOf t.tokens s) t.parser.skipped .skipping [] with
    | error fault => rfl
    | ok e => simp [bind, Except.bind, pure, Except.pure, Except.map]
  · rfl

end Mirrors

variable [Scalar K] {S : Services} {s : Span} {c : Cell K}

/-- Whether the entries and the rules that a parse may use have the scores of the mirrored ones. -/
structure ScoresMirror (t t' : Sentence K) : Prop where
  entry : ∀ s entries, t.blank.hasSpan s = true → t.entriesAt s = .ok entries → ∀ e ∈ entries,
    t'.model.scoreEntry e.mirror = t.model.scoreEntry e
  rule : ∀ rule ∈ t.parser.grammar.binary,
    t'.model.scoreRule rule.name.flip = t.model.scoreRule rule.name

/-- The score of a result on two cells is that of the mirrored result on the mirrored cells. -/
theorem ScoresMirror.scoreNode_eq (h : t.ScoresMirror t') (hcommutes : Scalar.Commutes K)
    {rule : BinaryRule} (hrule : rule ∈ t.parser.grammar.binary) (x y : K) :
    t'.scoreNode [y, x] rule.name.flip = t.scoreNode [x, y] rule.name := by
  have htotal := hcommutes y x
  rw [scoreNode, scoreNode, h.rule rule hrule]
  simp only [List.map_cons, List.map_nil, htotal]

namespace Mirrors

/-- Whether the mirrored derivation of a cell is retained, with the score of the cell if scores are
mirrored. -/
def Reflects (t t' : Sentence K) (c : Cell K) : Prop :=
  ∃ cs', t'.cellsAt t'.retained (c.span.mirror t.tokens.length) = .ok cs' ∧
    ∃ c' ∈ cs', c'.outline = c.outline.mirror t.tokens.length ∧
      (t.ScoresMirror t' → c'.score = c.score)

theorem reflects_entry (h : t.Mirrors t') (hample : t.Ample) (hample' : t'.Ample)
    (hs : t.blank.hasSpan s = true) {cs : List (Cell K)} (hcs : t.cellsAt t.retained s = .ok cs)
    {entries : List Entry} (hentries : t.entriesAt s = .ok entries) (hc : c ∈ cs)
    (hleaf : c.children = []) : Reflects t t' c := by
  obtain ⟨e, he, rfl⟩ := (hample.mem_leaves hs hcs hentries hleaf).1 hc
  have hs' := (h.hasSpan s).trans hs
  have hentries' := h.entriesAt_eq hs
  rw [hentries] at hentries'
  obtain ⟨cs', hcs'⟩ := hample'.exists_cellsAt hs'
  have he' : e.mirror ∈ distinct Entry.same (entries.map Entry.mirror) := by
    rw [distinct_map Entry.mirror_same]
    exact List.mem_map_of_mem he
  refine ⟨cs', hcs', _, (hample'.mem_leaves hs' hcs' hentries' rfl).2 ⟨_, he', rfl⟩, rfl, ?_⟩
  intro hscores
  rw [leafOf, leafOf, leaf_score, leaf_score,
    hscores.entry s entries hs hentries e (mem_of_mem_distinct he)]

theorem reflects_pair (h : t.Mirrors t') (hample' : t'.Ample) (hcommutes : Scalar.Commutes K)
    (hgrammar : t.parser.grammar.Symmetric S) {l r : Cell K} {results : List RuleResult}
    {res : RuleResult} {score : K} (hl : Reflects t t' l) (hr : Reflects t t' r)
    (hls : t.blank.hasSpan l.span = true) (hrs : t.blank.hasSpan r.span = true)
    (hjoin : l.span.stop = r.span.start)
    (hresults : (t.parser.grammar.applyBinary l.category r.category).result = .ok results)
    (hres : res ∈ results) (hscore : t.scoreNode [l.score, r.score] res.rule = .ok score) :
    Reflects t t' (t.node [l, r] res ⟨l.span.start, r.span.stop⟩ score) := by
  obtain ⟨rights, hrights, l', hl', hloutline, hlscore⟩ := hl
  obtain ⟨lefts, hlefts, r', hr', hroutline, hrscore⟩ := hr
  have hlcategory := Cell.category_of_mirror hloutline
  have hrcategory := Cell.category_of_mirror hroutline
  rw [hasSpan_iff] at hls hrs
  -- the mirrored parts stand in the other order
  have hparts : (r.span.mirror t.tokens.length, l.span.mirror t.tokens.length) ∈
      Parser.splits (Span.mirror t.tokens.length ⟨l.span.start, r.span.stop⟩) := by
    refine Parser.mem_splits_of_join ?_ ?_ ?_ <;> simp only [Span.mirror] <;> omega
  have hs : t.blank.hasSpan ⟨l.span.start, r.span.stop⟩ = true := by
    rw [hasSpan_iff]
    dsimp only
    omega
  have hs' := (h.hasSpan _).trans hs
  obtain ⟨cs', hcs'⟩ := hample'.exists_cellsAt hs'
  have hlkey := hlcategory ▸ hashable_of_mem_cellsAt t'.selects_retained hrights hl'
  have hrkey := hrcategory ▸ hashable_of_mem_cellsAt t'.selects_retained hlefts hr'
  obtain ⟨results', hresults'⟩ := hgrammar.applyBinary_ok hrkey hlkey
  have hres' := hgrammar.mirror_mem hresults hresults' hres
  have happlied := hresults'
  rw [← hlcategory, ← hrcategory, ← h.grammar] at happlied
  obtain ⟨given, hgiven, hrule, score', hmem⟩ :=
    hample'.exists_pair hs' hparts hlefts hrights hr' hl' happlied hres' hcs'
  obtain rfl := hgrammar.eq_of_rule hresults' hgiven hres' hrule
  refine ⟨cs', hcs', _, hmem, ?_, fun hscores => ?_⟩
  · simp [Outline.mirror, Outline.mirrorAll, hloutline, hroutline, RuleResult.mirror]
  · obtain ⟨rule, hmember, hname, -⟩ := hgrammar.exists_rule hresults hres
    have hscore' := (derives_of_mem_cellsAt t'.selects_retained hcs' hmem).scoreNode_eq (by simp)
    simp only [node_children, node_rule, node_score, List.map_cons, List.map_nil,
      RuleResult.mirror, hname, hlscore hscores, hrscore hscores] at hscore'
    rw [hscores.scoreNode_eq hcommutes hmember, ← hname, hscore] at hscore'
    exact (Except.ok.inj hscore').symm

section

variable (h : t.Mirrors t') (hample : t.Ample) (hample' : t'.Ample)
  (hcommutes : Scalar.Commutes K) (hgrammar : t.parser.grammar.Symmetric S) {cs cs' : List (Cell K)}
  (hcs : t.cellsAt t.retained s = .ok cs)

include h hample hample' hcommutes hgrammar hcs

/-- The mirrored derivation of every retained cell is retained. -/
theorem reflects_of_mem (hc : c ∈ cs) : Reflects t t' c := by
  induction hn : s.length using Nat.strongRecOn generalizing s cs c with
  | _ n ih =>
    have hselect := t.selects_retained
    have hspan := span_of_mem_cellsAt hselect hcs hc
    have hs := (derives_of_mem_cellsAt hselect hcs hc).hasSpan
    rw [hspan] at hs
    obtain ⟨os, hos, -, o, ho, rfl⟩ := mem_cellsAt hselect hcs hc
    have hcandidate := (candidate_of_mem hselect hos ho).1
    generalize o.cell = c at *
    cases hcandidate with
    | entry hentries => exact h.reflects_entry hample hample' hs hcs hentries hc rfl
    | pair hparts hlefts hrights hl hr hresults hres hscore =>
      obtain ⟨hstart, -, hjoin, -, hstop⟩ := Parser.splits_eq hparts
      obtain ⟨hleft, hright⟩ := Parser.length_lt_of_mem_splits hparts
      have hlspan := span_of_mem_cellsAt hselect hlefts hl
      have hrspan := span_of_mem_cellsAt hselect hrights hr
      have hpair := h.reflects_pair hample' hcommutes hgrammar (ih _ (hn ▸ hleft) hlefts hl rfl)
        (ih _ (hn ▸ hright) hrights hr rfl) (derives_of_mem_cellsAt hselect hlefts hl).hasSpan
        (derives_of_mem_cellsAt hselect hrights hr).hasSpan (by rw [hlspan, hrspan, hjoin])
        hresults hres hscore
      rwa [hlspan, hrspan, hstart, hstop] at hpair
    | shift _ _ _ _ hresults hres =>
      -- there are no rules for one category
      rw [hgrammar.applyUnary_eq] at hresults
      obtain rfl := Except.ok.inj hresults
      cases hres

variable (hcs' : t'.cellsAt t'.retained (s.mirror t.tokens.length) = .ok cs')

include hcs'

theorem exists_mirrored (hc : c ∈ cs) : ∃ c' ∈ cs', c'.outline = c.outline.mirror t.tokens.length ∧
    (t.ScoresMirror t' → c'.score = c.score) := by
  obtain ⟨cs'', hcs'', hmem⟩ := h.reflects_of_mem hample hample' hcommutes hgrammar hcs hc
  rw [span_of_mem_cellsAt t.selects_retained hcs hc] at hcs''
  obtain rfl := Except.ok.inj (hcs'.symm.trans hcs'')
  exact hmem

/-- What is equal for a cell and the cell of its mirrored derivation is, all in all, equal for the
cells of a span and of its mirrored span. -/
theorem perm_map {γ : Type} {F G : Cell K → γ}
    (heq : ∀ c ∈ cs, ∀ c' ∈ cs', c'.outline = c.outline.mirror t.tokens.length → F c' = G c) :
    (cs'.map F).Perm (cs.map G) := by
  have hselect := t.selects_retained
  have hselect' := t'.selects_retained
  have hgrammar' : t'.parser.grammar.Symmetric S := by rwa [h.grammar]
  have hback : ∀ c' ∈ cs', ∃ c ∈ cs, c'.outline = c.outline.mirror t.tokens.length := by
    intro c' hc'
    have hcs'' : t.cellsAt t.retained ((s.mirror t.tokens.length).mirror t'.tokens.length) =
        .ok cs := by
      rwa [h.length_eq, Span.mirror_mirror]
    obtain ⟨c, hc, houtline, -⟩ :=
      h.symm.exists_mirrored hample' hample hcommutes hgrammar' hcs' hcs'' hc'
    refine ⟨c, hc, ?_⟩
    rw [houtline, h.length_eq, Outline.mirror_mirror]
  let read (c' : Cell K) : Outline × γ := (c'.outline, F c')
  let reflect (c : Cell K) : Outline × γ := (c.outline.mirror t.tokens.length, G c)
  have hperm : (cs'.map read).Perm (cs.map reflect) := by
    refine (List.perm_ext_iff_of_nodup ?_ ?_).2 fun x => ?_
    · refine (nodup_cellsAt hselect' hcs').map_on fun c hc d hd h => ?_
      exact eq_of_outline hselect' hcs' hc hd (congrArg Prod.fst h)
    · refine (nodup_cellsAt hselect hcs).map_on fun c hc d hd h => ?_
      have houtline := congrArg (Outline.mirror t.tokens.length) (congrArg Prod.fst h)
      rw [Outline.mirror_mirror, Outline.mirror_mirror] at houtline
      exact eq_of_outline hselect hcs hc hd houtline
    · constructor
      · intro hx
        obtain ⟨c', hc', rfl⟩ := List.mem_map.1 hx
        obtain ⟨c, hc, houtline⟩ := hback c' hc'
        refine List.mem_map.2 ⟨c, hc, ?_⟩
        exact Prod.ext houtline.symm (heq c hc c' hc' houtline).symm
      · intro hx
        obtain ⟨c, hc, rfl⟩ := List.mem_map.1 hx
        obtain ⟨c', hc', houtline, -⟩ :=
          h.exists_mirrored hample hample' hcommutes hgrammar hcs hcs' hc
        refine List.mem_map.2 ⟨c', hc', ?_⟩
        exact Prod.ext houtline (heq c hc c' hc' houtline)
  simpa [read, reflect, Function.comp_def] using hperm.map Prod.snd

/-- Cells whose derivations mirror each other have one score if scores are mirrored. -/
theorem score_eq (hscores : t.ScoresMirror t') (hc : c ∈ cs) {c' : Cell K} (hc' : c' ∈ cs')
    (houtline : c'.outline = c.outline.mirror t.tokens.length) : c'.score = c.score := by
  obtain ⟨d, hd, hmirrored, hscore⟩ :=
    h.exists_mirrored hample hample' hcommutes hgrammar hcs hcs' hc
  rw [eq_of_outline t'.selects_retained hcs' hc' hd (houtline.trans hmirrored.symm)]
  exact hscore hscores

end

end Mirrors

end Sentence

namespace Parser

/-- What two parses are that mirror each other, with any beams, ranks and scores. -/
structure Mirrors {K : Type} (p p' : Parser K) (m m' : Model K) (options options' : ParseOptions) :
    Prop where
  grammar : p'.grammar = p.grammar
  skips : p'.config.skipsWords = p.config.skipsWords
  skipped : p'.skipped = p.skipped.mirror
  lexicon : m'.lexicon = m.lexicon.mirror
  extra : options'.extra = options.extra.map Lexicon.mirror

theorem get_lexicon_mirror {K : Type} {m m' : Model K} (hm : m'.lexicon = m.lexicon.mirror)
    (extra : Option Lexicon) (tokens : List String) :
    (Parser.lexicon m' (extra.map Lexicon.mirror)).get tokens.reverse =
      ((Parser.lexicon m extra).get tokens).map Entry.mirror := by
  have hget := get_lexicon_translate Entry.translation_mirror hm extra tokens
  rw [distinct_map Entry.mirror_same,
    distinct_of_pairwise (LexiconView.pairwise_get _ tokens)] at hget
  exact hget

variable {p p' : Parser Number} {m m' : Model Number} {tokens : List String}
  {options options' : ParseOptions} {t t' : Sentence Number} {S : Services} {chart : Chart Number}

theorem Mirrors.sentence (h : p.Mirrors p' m m' options options')
    (ht : p.sentence m tokens options = .ok t)
    (ht' : p'.sentence m' tokens.reverse options' = .ok t') : t.Mirrors t' := by
  obtain ⟨hparser, -⟩ := parts_of_sentence ht
  obtain ⟨hparser', -⟩ := parts_of_sentence ht'
  obtain ⟨hview, htokens⟩ := view_of_sentence ht
  obtain ⟨hview', htokens'⟩ := view_of_sentence ht'
  refine ⟨by rw [htokens, htokens'], by rw [hparser, hparser', h.grammar],
    by rw [hparser, hparser', h.skips], by rw [hparser, hparser', h.skipped], fun tokens => ?_⟩
  rw [hview, hview', h.extra]
  exact get_lexicon_mirror h.lexicon options.extra tokens

/-- For a grammar of applications and compositions in both directions with one service, and of both
rules that absorb skipped tokens: the parse of the reversed sentence with the mirrored lexicon is
found if its entries, scores and ranks are. If no beam of the two parses loses a cell, it has just
the mirrored categories over the mirrored span of every span, each with the same number of cells,
and with the same scores if entries and rules have the scores of the mirrored ones. -/
theorem mirror_symmetric (h : p.Mirrors p' m m' options options') (hgrammar : p.grammar.Symmetric S)
    (ht : p.sentence m tokens options = .ok t)
    (ht' : p'.sentence m' tokens.reverse options' = .ok t')
    (hchart : (p.chart m tokens options).result = .ok chart ∨ t.Reaches chart)
    (hkeeps : chart.keepsAll = true) :
    (∀ P, Scalar.Closed P → t'.Supplied P →
      ∃ chart', (p'.chart m' tokens.reverse options').result = .ok chart') ∧
    ∀ chart', ((p'.chart m' tokens.reverse options').result = .ok chart' ∨ t'.Reaches chart') →
      chart'.keepsAll = true → ∀ s cs, chart.cells s = .ok cs →
        ∃ cs', chart'.cells (s.mirror tokens.length) = .ok cs' ∧
          (cs'.map Cell.category).Perm (cs.map fun c => c.category.mirror) ∧
          (t.ScoresMirror t' → (cs'.map fun c => (c.category, c.score)).Perm
            (cs.map fun c => (c.category.mirror, c.score))) := by
  have hmirrors := h.sentence ht ht'
  have hcomplete := complete_of_chart ht hchart
  have hcommutes := Scalar.commutes_number
  obtain ⟨hparser, -⟩ := parts_of_sentence ht
  obtain ⟨-, htokens⟩ := view_of_sentence ht
  rw [← hparser] at hgrammar
  refine ⟨fun P hP hsupplied => ?_, fun chart' hchart' hkeeps' s cs hcs => ?_⟩
  · have hstrays : ∀ fault, ¬ t'.Strays fault := by
      rw [← hmirrors.grammar] at hgrammar
      refine Sentence.not_strays_of_regular
        (fun rule hrule _ _ ha hb => hgrammar.regular hrule ha hb) fun rule hrule => ?_
      rw [hgrammar.unary] at hrule
      cases hrule
    obtain ⟨chart', hchart', -⟩ := exists_chart_of_supplied ht' hsupplied hP hstrays
    exact ⟨chart', hchart'⟩
  have hcomplete' := complete_of_chart ht' hchart'
  have hample := hcomplete.ample hkeeps
  have hample' := hcomplete'.ample hkeeps'
  have hs' := (hmirrors.hasSpan s).trans (hcomplete.hasSpan_of_cells hcs)
  obtain ⟨cs', hcs'⟩ := hample'.exists_cellsAt hs'
  have hcells := hcomplete.cellsAt_eq hcs
  refine ⟨cs', by rw [← htokens, hcomplete'.cells_eq hs', hcs'], ?_, fun hscores => ?_⟩
  · exact hmirrors.perm_map hample hample' hcommutes hgrammar hcells hcs'
      fun c _ c' _ houtline => Cell.category_of_mirror houtline
  · refine hmirrors.perm_map hample hample' hcommutes hgrammar hcells hcs'
      fun c hc c' hc' houtline => ?_
    exact Prod.ext (Cell.category_of_mirror houtline)
      (hmirrors.score_eq hample hample' hcommutes hgrammar hcells hcs' hscores hc hc' houtline)

/-- A determiner, its noun and a verb that looks for its noun phrase on the left. -/
def verbLast : List Entry :=
  let function (name : String) : Value := .func ⟨name, .named, .tag none⟩ [] []
  [⟨["the"], ⟨some (.slash .forward (.primitive "NP") (.primitive "N")), function "the"⟩, .fixed,
      []⟩,
    ⟨["dog"], ⟨some (.primitive "N"), .text "dog"⟩, .fixed, []⟩,
    ⟨["barks"], ⟨some (.slash .backward (.primitive "S") (.primitive "NP")), function "bark"⟩,
      .fixed, []⟩]

/-- A model whose entries all score two. -/
def evenModel (lexicon : Lexicon) : Model Number :=
  ⟨lexicon, [⟨"LEX", .uniform (.int 2)⟩], [], [], .empty⟩

/-- A parser with applications and compositions in both directions, and with skipped tokens. -/
def sidedParser : Parser Number :=
  .create (.categorial (.calling .stock Services.usualRejections) none)
    ⟨.int 50, none, true, .int 1⟩ .structural .empty false

/-- The cells of a sentence and of the reversed one, a sentence among them. -/
theorem mirror_symmetric_verb_first :
    let m := evenModel (.ofList verbLast)
    let m' := evenModel (Lexicon.ofList verbLast).mirror
    ∃ (t t' : Sentence Number) (chart chart' : Chart Number) (cs cs' : List (Cell Number)),
      sidedParser.Mirrors sidedParser m m' .plain .plain ∧
      sidedParser.grammar.Symmetric (.calling .stock Services.usualRejections) ∧
      sidedParser.sentence m ["the", "dog", "barks"] .plain = .ok t ∧
      sidedParser.sentence m' ["barks", "dog", "the"] .plain = .ok t' ∧
      chart.keepsAll = true ∧ chart'.keepsAll = true ∧ t.ScoresMirror t' ∧
      chart.cells ⟨0, 3⟩ = .ok cs ∧ cs.length = 19 ∧
      (cs.any fun c => c.category.type.same (some (.primitive "S"))) = true ∧
      chart'.cells ⟨0, 3⟩ = .ok cs' ∧
      (cs'.map fun c => (c.category, c.score)).Perm
        (cs.map fun c => (c.category.mirror, c.score)) := by
  intro m m'
  have hmirrors : sidedParser.Mirrors sidedParser m m' .plain .plain := ⟨rfl, rfl, rfl, rfl, rfl⟩
  have hgrammar := Grammar.symmetric_categorial (.calling .stock Services.usualRejections)
  obtain ⟨t, chart, ht, hchart, hkeeps, hcheck⟩ := exists_chart sidedParser m
    ["the", "dog", "barks"] .plain (fun chart => (chart.cells ⟨0, 3⟩).toOption.any fun cs =>
      cs.length == 19 && cs.any fun c => c.category.type.same (some (.primitive "S")))
    (by decide +kernel)
  obtain ⟨t', chart', ht', hchart', hkeeps', -⟩ := exists_chart sidedParser m'
    ["barks", "dog", "the"] .plain (fun _ => true) (by decide +kernel)
  obtain ⟨-, hcells⟩ := mirror_symmetric hmirrors hgrammar ht ht' (.inl hchart) hkeeps
  have hscores : t.ScoresMirror t' := by
    obtain rfl := Except.ok.inj ht
    obtain rfl := Except.ok.inj ht'
    exact ⟨fun _ _ _ _ _ _ => rfl, fun _ _ => rfl⟩
  cases hcs : chart.cells ⟨0, 3⟩ with
  | error fault => simp [hcs, Except.toOption] at hcheck
  | ok cs =>
    obtain ⟨cs', hcs', -, hperm⟩ := hcells chart' (.inl hchart') hkeeps' _ _ hcs
    simp only [hcs, Except.toOption, Option.any_some, Bool.and_eq_true, beq_iff_eq] at hcheck
    exact ⟨t, t', chart, chart', cs, cs', hmirrors, hgrammar, ht, ht', hkeeps, hkeeps', hscores,
      hcs, hcheck.1, hcheck.2, hcs', hperm hscores⟩

end Parser

end Categorial
