import Categorial.Proofs.Lexicon.Growth
import Categorial.Proofs.Parsing.Absorption
import Categorial.Proofs.Parsing.Uncut

/-!
Sentences with tokens inserted. The tokens that stand behind an entry are absorbed by it, one after
the other, and those before all entries by the whole derivation at last; so a rule for one category
finds its category where it did before, and not as its own result. Main statement: where no beam was
full, every derivation that skips no token has a cell over the sentence with the inserted tokens,
made of its entries and rules and of those that skip these tokens.
-/

namespace Categorial

/-- Entries, each with the tokens that are inserted behind it. -/
abbrev Pieces := List (Entry × List String)

namespace Pieces

/-- The tokens of the entries, with the inserted ones. -/
def tokens (pieces : Pieces) : List String := pieces.flatMap fun x => x.1.tokens ++ x.2

/-- The tokens that are inserted. -/
def inserted (pieces : Pieces) : List String := pieces.flatMap Prod.snd

/-- The entries, with those that skip the inserted tokens. -/
def entries (pieces : Pieces) : List Entry := pieces.flatMap fun x => x.1 :: x.2.map Entry.skip

variable (x : Entry × List String) (pieces pieces' : Pieces)

@[simp] theorem tokens_append : tokens (pieces ++ pieces') = tokens pieces ++ tokens pieces' :=
  List.flatMap_append

@[simp] theorem inserted_append :
    inserted (pieces ++ pieces') = inserted pieces ++ inserted pieces' := List.flatMap_append

@[simp] theorem entries_append : entries (pieces ++ pieces') = entries pieces ++ entries pieces' :=
  List.flatMap_append

@[simp] theorem tokens_singleton : tokens [x] = x.1.tokens ++ x.2 := List.flatMap_singleton ..

@[simp] theorem inserted_singleton : inserted [x] = x.2 := List.flatMap_singleton ..

@[simp] theorem entries_singleton : entries [x] = x.1 :: x.2.map Entry.skip :=
  List.flatMap_singleton ..

/-- The entries that skip tokens may be put behind the others. -/
theorem perm_entries :
    (entries pieces).Perm (pieces.map Prod.fst ++ (inserted pieces).map Entry.skip) := by
  rw [inserted, List.map_flatMap, List.map_eq_flatMap]
  exact (List.flatMap_append_perm pieces (fun x => [x.1]) fun x => x.2.map Entry.skip).symm

/-- So may those that skip tokens before all of them. -/
theorem perm_append_entries (lead : List String) : (lead.map Entry.skip ++ entries pieces).Perm
    (pieces.map Prod.fst ++ (lead ++ inserted pieces).map Entry.skip) := by
  rw [List.map_append]
  exact ((perm_entries pieces).append_left _).trans (List.perm_append_comm_assoc ..)

end Pieces

/-- A parser made to skip tokens, by rules of which none absorbs them, has these rules and both that
absorb skipped tokens. -/
theorem Parser.grammar_create_of_skips {K : Type} {bs : List BinaryRule} {us : List UnaryRule}
    {config : ParserConfig} {ranking : Ranking K} {reports : Bool}
    (hskips : config.skipsWords = true) (hown : (Grammar.ofRules bs us).hasSkipping = false)
    (skipped : Category) :
    (create (.ofRules bs us) config ranking skipped reports).grammar =
      ⟨(Grammar.ofRules bs us).binary ++ [.skipping .forward, .skipping .backward],
        (Grammar.ofRules bs us).unary⟩ := by
  rw [grammar_create hskips, hown]
  rfl

namespace Sentence

variable {K : Type} [Scalar K] {t t₀ : Sentence K} {T : Tree}

/-- What a sentence is whose tokens may be skipped, and that loses no derivation. -/
structure Absorbs (t : Sentence K) : Prop extends t.Skips where
  exhaustive : t.Exhaustive

/-- The category of a derivation can be a key, for a cell is retained that stands for it. -/
theorem Absorbs.hashable (h : t.Absorbs) (hT : t.IsDerivation T) :
    T.category.hashable = true := by
  obtain ⟨os, hos, c, hc, hdescribes⟩ := h.exhaustive.holds_of_isDerivation hT
  obtain ⟨o, ho, rfl⟩ := t.selects_retained.subset _ _ hc
  obtain ⟨-, hoffered⟩ := candidate_of_mem t.selects_retained hos ho
  exact Category.hashable_of_same (Category.same_symm (Tree.category_same_of_describes hdescribes))
    hoffered.hashable

/-- Combining a derivation with the skipped token behind it ends without a fault, for a cell of each
is retained. -/
theorem Absorbs.applyBinary_behind (h : t.Absorbs) (hT : t.IsDerivation T)
    {before after gap : List String} (hgap : gap ≠ []) (htokens : t.tokens = before ++ gap ++ after)
    (hstop : T.span.stop = before.length) :
    ∃ results, (t.parser.grammar.applyBinary T.category .empty).result = .ok results := by
  obtain ⟨token, gap, rfl⟩ := List.exists_cons_of_ne_nil hgap
  rw [List.append_assoc, List.cons_append] at htokens
  have hskip := h.isDerivation_skip htokens
  exact h.exhaustive.exists_applyBinary hT.hasSpan hskip.hasSpan hstop
    (h.exhaustive.holds_of_isDerivation hT) (h.exhaustive.holds_of_isDerivation hskip)

/-- So does combining it with the skipped token before it. -/
theorem Absorbs.applyBinary_ahead (h : t.Absorbs) (hT : t.IsDerivation T)
    {before after lead : List String} (hlead : lead ≠ [])
    (htokens : t.tokens = before ++ lead ++ after)
    (hstart : T.span.start = before.length + lead.length) :
    ∃ results, (t.parser.grammar.applyBinary .empty T.category).result = .ok results := by
  have hlast : t.tokens = before ++ lead.dropLast ++ lead.getLast hlead :: after := by
    rw [htokens, List.append_assoc before, List.append_assoc, List.append_cons,
      List.dropLast_append_getLast hlead]
  have hskip := h.isDerivation_skip hlast
  have hpos := List.length_pos_of_ne_nil hlead
  refine h.exhaustive.exists_applyBinary hskip.hasSpan hT.hasSpan ?_
    (h.exhaustive.holds_of_isDerivation hskip) (h.exhaustive.holds_of_isDerivation hT)
  rw [Tree.span, hstart, List.length_append, List.length_dropLast]
  dsimp only
  omega

/-- Whether a sentence has the entries and the rules of another one that skips no tokens. -/
structure Extends (t₀ t : Sentence K) : Prop where
  plain : t₀.parser.config.skipsWords = false
  view : t₀.view = t.view
  binary : ∀ rule ∈ t₀.parser.grammar.binary, rule ∈ t.parser.grammar.binary
  unary : ∀ rule ∈ t₀.parser.grammar.unary, rule ∈ t.parser.grammar.unary

/-- What stands before each of two lists may stand before both of them and an element. -/
theorem perm_cons_append {α : Type} (x : α) {as bs ls rs ls' rs' : List α}
    (hl : ls'.Perm (as ++ ls)) (hr : rs'.Perm (bs ++ rs)) :
    (x :: (ls' ++ rs')).Perm (as ++ bs ++ x :: (ls ++ rs)) := by
  have hcomm : (as ++ ls ++ (bs ++ rs)).Perm (as ++ bs ++ (ls ++ rs)) := by
    rw [List.append_assoc, List.append_assoc]
    exact (List.perm_append_comm_assoc ls bs rs).append_left as
  exact (((hl.append hr).trans hcomm).cons x).trans List.perm_middle.symm

variable {before after : List String} {pieces : Pieces}

/-- Tokens that are inserted behind the leaves of a derivation are absorbed by them; then every rule
gives what it gave before. -/
theorem Absorbs.exists_spread (h : t.Absorbs) (hextends : t₀.Extends t) (hT : t₀.IsDerivation T)
    (hpieces : pieces.map Prod.fst = T.entries)
    (htokens : t.tokens = before ++ pieces.tokens ++ after) :
    ∃ T', t.IsDerivation T' ∧ T'.category = T.category ∧
      T'.span = ⟨before.length, before.length + pieces.tokens.length⟩ ∧
      (T.isShift = false → T'.isShift = false) ∧ T'.entries = pieces.entries ∧
      T'.rules.Perm (List.replicate pieces.inserted.length
        (BinaryRule.skipping .backward).name ++ T.rules) := by
  -- A leaf that absorbed tokens is still no result on a single tree, which is what a rule for one
  -- category asks for; so the induction carries this besides the category.
  induction hT generalizing before after pieces with
  | @entry e s hs he =>
    obtain ⟨⟨e, gap⟩, rfl, rfl⟩ := List.map_eq_singleton_iff.1 hpieces
    rw [Pieces.tokens_singleton, ← List.append_assoc] at htokens
    have hlength : 0 < e.tokens.length := by
      obtain ⟨hstart, hlt, hstop⟩ := hasSpan_iff.1 hs
      rw [LexiconView.tokens_of_mem_get _ he, Parser.length_tokensOf hstart hstop, Span.length]
      omega
    have hleaf : t.IsDerivation
        (.entry e ⟨before.length, before.length + e.tokens.length⟩) := by
      refine .entry ?_ ?_
      · rw [hasSpan_iff, htokens]
        simp
        omega
      · rw [← hextends.view, htokens, List.append_assoc, Parser.tokensOf_between]
        exact LexiconView.tokens_of_mem_get _ he ▸ he
    have hstop : (Tree.entry e ⟨before.length, before.length + e.tokens.length⟩).span.stop =
        (before ++ e.tokens).length := by simp [Tree.span]
    have hbehind := h.isDerivation_behind hleaf (h.hashable hleaf)
      (fun hgap => h.applyBinary_behind hleaf hgap htokens hstop) htokens hstop
    refine ⟨_, hbehind, Tree.category_behind .., ?_, fun _ => Tree.isShift_behind _ _ rfl, ?_, ?_⟩
    · simp [Tree.span, Int.add_assoc]
    · simp [Tree.entries]
    · simp [Tree.rules]
  | skip _ hskips =>
    rw [hextends.plain] at hskips
    exact Bool.noConfusion hskips
  | @pair r results left right hl hr hjoin hresults hres ihl ihr =>
    obtain ⟨pieces, pieces', rfl, hleft, hright⟩ := List.map_eq_append_iff.1 hpieces
    have htokens' : t.tokens =
        before ++ Pieces.tokens pieces ++ (Pieces.tokens pieces' ++ after) := by
      simpa using htokens
    rw [Pieces.tokens_append, ← List.append_assoc] at htokens
    obtain ⟨left', hl', hcategory, hspan, -, hentries, hrules⟩ := ihl hleft htokens'
    obtain ⟨right', hr', hcategory', hspan', -, hentries', hrules'⟩ := ihr hright htokens
    have hjoin' : left'.span.stop = right'.span.start := by
      rw [hspan, hspan']
      simp
    obtain ⟨results', hresults'⟩ := h.exhaustive.exists_applyBinary hl'.hasSpan hr'.hasSpan hjoin'
      (h.exhaustive.holds_of_isDerivation hl') (h.exhaustive.holds_of_isDerivation hr')
    refine ⟨.pair r left' right', .pair hl' hr' hjoin' hresults' ?_, rfl, ?_, fun _ => rfl, ?_, ?_⟩
    · obtain ⟨⟨rule, hrule, hgiven⟩, hkey⟩ := (Grammar.mem_applyBinary hresults).1 hres
      rw [Grammar.mem_applyBinary hresults', hcategory, hcategory']
      exact ⟨⟨rule, hextends.binary rule hrule, hgiven⟩, hkey⟩
    · rw [Tree.span, hspan, hspan']
      simp [Int.add_assoc]
    · rw [Tree.entries, hentries, hentries', Pieces.entries_append]
    · rw [Pieces.inserted_append, List.length_append, List.replicate_add]
      exact perm_cons_append r.rule hrules hrules'
  | @shift r results child hchild hshift hresults hres ih =>
    obtain ⟨child', hc', hcategory, hspan, hshift', hentries, hrules⟩ := ih hpieces htokens
    obtain ⟨results', hresults'⟩ := h.exhaustive.exists_applyUnary hc'.hasSpan (hshift' hshift)
      (h.exhaustive.holds_of_isDerivation hc')
    refine ⟨.shift r child', .shift hc' (hshift' hshift) hresults' ?_, rfl, hspan, fun h => ?_,
      hentries, ?_⟩
    · obtain ⟨⟨rule, hrule, hgiven⟩, hkey⟩ := (Grammar.mem_applyUnary hresults).1 hres
      rw [Grammar.mem_applyUnary hresults', hcategory]
      exact ⟨⟨rule, hextends.unary rule hrule, hgiven⟩, hkey⟩
    · exact Bool.noConfusion h
    · exact (hrules.cons r.rule).trans List.perm_middle.symm

variable {bs : List BinaryRule} {us : List UnaryRule} {config config₀ : ParserConfig}
  {ranking ranking₀ : Ranking K} {skipped₀ : Category} {reports reports₀ : Bool} {m : Model K}
  {w s lead : List String} {options options₀ : ParseOptions} {chart : Chart K}

theorem Uncut.absorbs (hskips : config.skipsWords = true)
    (hown : (Grammar.ofRules bs us).hasSkipping = false)
    (h : Uncut (.create (.ofRules bs us) config ranking .empty reports) m s options t chart) :
    t.Absorbs := by
  obtain ⟨hparser, -⟩ := Parser.parts_of_sentence h.sentence
  refine ⟨⟨hparser ▸ hskips, hparser ▸ rfl, fun d => ?_⟩, h.exhaustive⟩
  rw [hparser, Parser.grammar_create_of_skips hskips hown]
  cases d <;> simp

/-- A sentence of the same rules and entries in which no token is skipped. -/
theorem Uncut.extends (hskips : config.skipsWords = true) (hplain : config₀.skipsWords = false)
    (hown : (Grammar.ofRules bs us).hasSkipping = false) (hextra : options₀.extra = options.extra)
    (ht₀ : (Parser.create (.ofRules bs us) config₀ ranking₀ skipped₀ reports₀).sentence m w
      options₀ = .ok t₀)
    (h : Uncut (.create (.ofRules bs us) config ranking .empty reports) m s options t chart) :
    t₀.Extends t := by
  obtain ⟨hparser, -⟩ := Parser.parts_of_sentence h.sentence
  obtain ⟨hparser₀, -⟩ := Parser.parts_of_sentence ht₀
  obtain ⟨hview, -⟩ := Parser.view_of_sentence h.sentence
  obtain ⟨hview₀, -⟩ := Parser.view_of_sentence ht₀
  have hgrammar₀ : t₀.parser.grammar = .ofRules bs us := by
    rw [hparser₀, Parser.create, hplain]
    rfl
  refine ⟨hparser₀ ▸ hplain, by rw [hview, hview₀, hextra], ?_, ?_⟩
  · intro rule hrule
    rw [hgrammar₀] at hrule
    rw [hparser, Parser.grammar_create_of_skips hskips hown]
    exact List.mem_append_left _ hrule
  · intro rule hrule
    rw [hgrammar₀] at hrule
    rw [hparser, Parser.grammar_create_of_skips hskips hown]
    exact hrule

/-- The rules that absorb the tokens before a derivation and those inserted behind its leaves. -/
def skipRules (lead : List String) (pieces : Pieces) : List RuleName :=
  List.replicate lead.length (BinaryRule.skipping .forward).name ++
    List.replicate pieces.inserted.length (BinaryRule.skipping .backward).name

/-- What a cell is that a derivation becomes when tokens are put before it and behind its leaves: it
has the category of the derivation, its leaves are those of the derivation with the entries that
skip the inserted tokens, and it is made by the same rules and those that absorb these tokens. Where
sums are exact, the latter are what its score has more than that of the derivation. -/
structure Absorbed (t₀ : Sentence K) (T : Tree) (lead : List String) (pieces : Pieces)
    (c : Cell K) : Prop where
  category : T.category.same c.category = true
  entries : c.entries = lead.map Entry.skip ++ pieces.entries
  rules : c.rules.Perm (T.rules ++ skipRules lead pieces)
  score : Scalar.Exact K → ∃ x xs ys, t₀.scoreTree T = .ok x ∧
    ((lead ++ pieces.inserted).map Entry.skip).mapM t₀.model.scoreEntry = .ok xs ∧
    (skipRules lead pieces).mapM t₀.model.scoreRule = .ok ys ∧
    c.score = x + Scalar.sum xs + Scalar.sum ys

/-- The leaves of a derivation absorb what stands behind them, and then the whole absorbs what
stands before it. -/
theorem Absorbs.exists_absorbing (h : t.Absorbs) (hextends : t₀.Extends t) (hT : t₀.IsDerivation T)
    (hpieces : pieces.map Prod.fst = T.entries) (htokens : t.tokens = lead ++ pieces.tokens) :
    ∃ T', t.IsDerivation T' ∧ T'.category = T.category ∧ T'.span = ⟨0, t.tokens.length⟩ ∧
      T'.entries = lead.map Entry.skip ++ pieces.entries ∧
      T'.rules.Perm (T.rules ++ skipRules lead pieces) := by
  have htokens' : t.tokens = lead ++ pieces.tokens ++ [] := by rw [htokens, List.append_nil]
  obtain ⟨T', hT', hcategory, hspan, -, hentries, hrules⟩ :=
    h.exists_spread hextends hT hpieces htokens'
  have hahead : t.IsDerivation (T'.ahead lead) := by
    have hbefore : t.tokens = [] ++ lead ++ pieces.tokens := htokens
    have hstart : T'.span.start = ([] : List String).length + lead.length := by
      rw [hspan]
      simp
    exact h.isDerivation_ahead hT' (h.hashable hT')
      (fun hlead => h.applyBinary_ahead hT' hlead hbefore hstart) hbefore hstart
  refine ⟨_, hahead, by rw [Tree.category_ahead, hcategory], ?_, ?_, ?_⟩
  · rw [Tree.span_ahead, hspan, htokens]
    simp
  · rw [Tree.entries_ahead, hentries]
  · rw [Tree.rules_ahead]
    refine (hrules.append_left _).trans ?_
    rw [← List.append_assoc]
    exact List.perm_append_comm

/-- Where sums are exact, a cell whose entries and rules are those of a derivation and others scores
as much as the derivation and the others. -/
theorem Derives.exists_scores (hexact : Scalar.Exact K) {c : Cell K} (hc : t.Derives c)
    {es : List Entry} {rules : List RuleName} (hentries : c.entries.Perm (T.entries ++ es))
    (hrules : c.rules.Perm (T.rules ++ rules)) (hmodel : t.model = t₀.model) :
    ∃ x xs ys, t₀.scoreTree T = .ok x ∧ es.mapM t₀.model.scoreEntry = .ok xs ∧
      rules.mapM t₀.model.scoreRule = .ok ys ∧ c.score = x + Scalar.sum xs + Scalar.sum ys := by
  obtain ⟨all, all', hall, hall', hscore⟩ := hc.score_eq hexact
  rw [hmodel] at hall hall'
  obtain ⟨_, hparts, hperm⟩ := exists_mapM_of_perm hentries.symm hall
  obtain ⟨_, hparts', hperm'⟩ := exists_mapM_of_perm hrules.symm hall'
  obtain ⟨own, xs, hown, hxs, rfl⟩ := mapM_append_eq_ok.1 hparts
  obtain ⟨own', ys, hown', hys, rfl⟩ := mapM_append_eq_ok.1 hparts'
  refine ⟨_, xs, ys, scoreTree_eq_sum hexact hown hown', hxs, hys, ?_⟩
  rw [hscore, ← hexact.sum_perm hperm, ← hexact.sum_perm hperm', hexact.sum_append,
    hexact.sum_append, hexact.add_add_add_comm, hexact.add_assoc (_ + _)]

/-- Tokens may be inserted anywhere but within a leaf. Take a derivation of a sentence that skips no
token, and let its rules give equal results on equal categories, none of them absorb skipped tokens,
and no stored entry have the category of skipped tokens. If no beam of a parse of the longer
sentence was full, some cell over all of it is what the derivation becomes. -/
theorem insertions_absorbed (hown : (Grammar.ofRules bs us).hasSkipping = false)
    (hstored : ∀ tokens, ∀ e ∈ (Parser.lexicon m options.extra).get tokens,
      e.category.same .empty = false)
    (hplain : config₀.skipsWords = false) (hextra : options₀.extra = options.extra)
    (ht₀ : (Parser.create (.ofRules bs us) config₀ ranking₀ skipped₀ reports₀).sentence m w
      options₀ = .ok t₀)
    (hT : t₀.IsDerivation T) (hspan : T.span = ⟨0, w.length⟩)
    (hpieces : pieces.map Prod.fst = T.entries) (hskips : config.skipsWords = true)
    (h : Uncut (.create (.ofRules bs us) config ranking .empty reports) m
      (lead ++ pieces.tokens) options t chart) :
    w = (pieces.map Prod.fst).flatMap Entry.tokens ∧
      ∃ cs, chart.cells ⟨0, (lead ++ pieces.tokens).length⟩ = .ok cs ∧
        ∃ c ∈ cs, t₀.Absorbed T lead pieces c := by
  obtain ⟨hparser, hmodel, -⟩ := Parser.parts_of_sentence h.sentence
  obtain ⟨hview, htokens⟩ := Parser.view_of_sentence h.sentence
  obtain ⟨-, hmodel₀, -⟩ := Parser.parts_of_sentence ht₀
  obtain ⟨-, htokens₀⟩ := Parser.view_of_sentence ht₀
  have hleaves := hT.tokens_eq
  rw [htokens₀, hspan] at hleaves
  refine ⟨?_, ?_⟩
  · rw [hpieces, ← hleaves]
    simp [Parser.tokensOf]
  obtain ⟨T', hT', hcategory, hspan', hentries, hrules⟩ :=
    (h.absorbs hskips hown).exists_absorbing (h.extends hskips hplain hown hextra ht₀) hT hpieces
      htokens
  obtain ⟨cs, hcs, hone⟩ := h.complete.countP_describes h.exhaustive hT'
  obtain ⟨c, hc, hdescribes⟩ := List.countP_pos_iff.1 (hone ▸ Nat.one_pos)
  obtain ⟨hderives, -⟩ := h.complete.derives hcs hc
  -- The cell that is retained may stand for other trees too; its leaves are those of this one since
  -- no stored entry is taken for one that skips a token.
  have hapart : t.SkipsApart := by
    intro _ s _ _ e he
    rw [hview] at he
    rw [hparser, Entry.same]
    exact Bool.and_eq_false_iff.2 (Or.inr (hstored _ e he))
  have hcentries : c.entries = lead.map Entry.skip ++ pieces.entries :=
    (hderives.entries_eq hapart hT' hdescribes).trans hentries
  have hcrules : c.rules.Perm (T.rules ++ skipRules lead pieces) := by
    rw [Tree.rules_of_describes hdescribes]
    exact hrules
  refine ⟨cs, by rw [← htokens, ← hspan', hcs], c, hc, ?_, hcentries, hcrules, fun hexact => ?_⟩
  · rw [← hcategory]
    exact Tree.category_same_of_describes hdescribes
  · refine hderives.exists_scores hexact ?_ hcrules (hmodel.trans hmodel₀.symm)
    rw [hcentries, ← hpieces]
    exact Pieces.perm_append_entries pieces lead

/-- A rule that puts a noun phrase and a verb together. -/
def clauseRule : BinaryRule :=
  .custom "ClauseRule" ⟨"clause", .forward⟩ fun left right =>
    .ok (if left.type.same (some (.primitive "NP")) && right.type.same (some (.primitive "V")) then
      [⟨⟨"clause", .forward⟩, ⟨some (.primitive "S"), .none⟩⟩]
    else [])

theorem coherent_clauseRule : clauseRule.Coherent := by
  intro a a' b b' ha hb results hresults
  obtain rfl := Except.ok.inj hresults
  rw [Category.same, Bool.and_eq_true] at ha hb
  refine ⟨_, rfl, ?_⟩
  have htype : ∀ {x y : Typing}, x.same y = true → ∀ z, x.same z = y.same z := fun h z =>
    Bool.eq_iff_iff.2 ⟨Typing.same_trans (Typing.same_symm h), Typing.same_trans h⟩
  rw [htype ha.1, htype hb.1]
  intro r hr
  exact ⟨r, hr, rfl, Category.same_refl _⟩

/-- A rule that makes a noun a noun phrase. -/
def phraseShift : UnaryRule :=
  .shift .stock "phrase" (some (.primitive "N")) (some (.primitive "NP")) .none

def cubeEntry : Entry := ⟨["cube"], ⟨some (.primitive "N"), .none⟩, .fixed, []⟩

def runsEntry : Entry := ⟨["runs"], ⟨some (.primitive "V"), .none⟩, .fixed, []⟩

/-- Entries score two, and those that skip a token minus one; the rules that absorb it score
minus a half. -/
def clauseModel : Model Rat :=
  ⟨.ofList [cubeEntry, runsEntry],
    [⟨"LEX", .skipping (some .empty) (.int (-1)) (.uniform (.int 2))⟩], [.usage "RULE" (.ok 1)], [],
    .ofPairs [(["RULE", ">skip"], -1 / 2), (["RULE", "<skip"], -1 / 2)]⟩

def clauseParser (skips : Bool) : Parser Rat :=
  .create (.ofRules [clauseRule] [phraseShift]) ⟨.int 50, none, skips, .int 1⟩ .structural .empty
    false

/-- The clause `cube runs`. -/
def clauseTree : Tree :=
  .pair ⟨⟨"clause", .forward⟩, ⟨some (.primitive "S"), .none⟩⟩
    (.shift ⟨⟨"phrase", .forward⟩, ⟨some (.primitive "NP"), .none⟩⟩ (.entry cubeEntry ⟨0, 1⟩))
    (.entry runsEntry ⟨1, 2⟩)

theorem isDerivation_clauseTree {t₀ : Sentence Rat}
    (ht₀ : (clauseParser false).sentence clauseModel ["cube", "runs"] .plain = .ok t₀) :
    t₀.IsDerivation clauseTree := by
  have hnoun : t₀.IsDerivation (.entry cubeEntry ⟨0, 1⟩) := by
    obtain rfl := Except.ok.inj ht₀
    exact .entry rfl (List.mem_singleton.2 rfl)
  have hverb : t₀.IsDerivation (.entry runsEntry ⟨1, 2⟩) := by
    obtain rfl := Except.ok.inj ht₀
    exact .entry rfl (List.mem_singleton.2 rfl)
  obtain ⟨hparser, -⟩ := Parser.parts_of_sentence ht₀
  have hphrase : (t₀.parser.grammar.applyUnary cubeEntry.category).result =
      .ok [⟨⟨"phrase", .forward⟩, ⟨some (.primitive "NP"), .none⟩⟩] := by
    rw [hparser]
    rfl
  have hclause : (t₀.parser.grammar.applyBinary ⟨some (.primitive "NP"), .none⟩
      runsEntry.category).result =
        .ok [⟨⟨"clause", .forward⟩, ⟨some (.primitive "S"), .none⟩⟩] := by
    rw [hparser]
    rfl
  exact .pair (.shift hnoun rfl hphrase (List.mem_singleton.2 rfl)) hverb rfl hclause
    (List.mem_singleton.2 rfl)

/-- In `cube um runs` the clause is found with a token skipped, which the noun absorbs before it is
made a noun phrase. -/
theorem insertions_absorbed_clause : ∃ t₀ t chart cs,
    (clauseParser false).sentence clauseModel ["cube", "runs"] .plain = .ok t₀ ∧
    Uncut (clauseParser true) clauseModel ["cube", "um", "runs"] .plain t chart ∧
    chart.cells ⟨0, 3⟩ = .ok cs ∧
      ∃ c ∈ cs, t₀.Absorbed clauseTree [] [(cubeEntry, ["um"]), (runsEntry, [])] c := by
  have hcoherent : (clauseParser true).grammar.Coherent := by
    refine Parser.coherent_create ?_ ?_ _ _ _ _
    · intro rule hrule
      rw [List.mem_singleton.1 (Grammar.madeOf_ofRules.binary rule hrule)]
      exact coherent_clauseRule
    · intro rule hrule
      rw [List.mem_singleton.1 (Grammar.madeOf_ofRules.unary rule hrule)]
      exact UnaryRule.coherent_shift _ _ _ _
  have hstored : ∀ tokens, ∀ e ∈ (Parser.lexicon clauseModel none).get tokens,
      e.category.same .empty = false := by
    have hall : ∀ e ∈ clauseModel.lexicon.entries, e.category.same .empty = false := by
      decide +kernel
    intro tokens e he
    rw [Parser.lexicon, LexiconView.get, Lexicon.get_eq_filter] at he
    exact hall e (List.mem_filter.1 he).1
  obtain ⟨t, chart, -, huncut, -⟩ := exists_uncut (clauseParser true) clauseModel
    ["cube", "um", "runs"] .plain 50 (fun _ => true) hcoherent rfl (by decide +kernel)
  obtain ⟨t₀, ht₀⟩ : ∃ t₀, (clauseParser false).sentence clauseModel ["cube", "runs"]
    .plain = .ok t₀ := ⟨_, rfl⟩
  have hlonger : Uncut (clauseParser true) clauseModel
    ([] ++ Pieces.tokens [(cubeEntry, ["um"]), (runsEntry, [])]) .plain t chart := huncut
  obtain ⟨-, cs, hcs, hc⟩ := insertions_absorbed rfl hstored rfl rfl ht₀
    (isDerivation_clauseTree ht₀) rfl rfl rfl hlonger
  exact ⟨t₀, t, chart, cs, ht₀, huncut, hcs, hc⟩

end Sentence

end Categorial
