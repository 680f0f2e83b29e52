import Categorial.Proofs.Learning.Used
import Categorial.Proofs.Model.Keys
import Categorial.Proofs.Parsing.Source
import Categorial.Proofs.Parsing.Uncut

/-!
Parsing an item again after a look for entries in it, over rational numbers. What the best valid
parses use is there again: entries that were proposed have been learned, those of the model have
stayed, and tokens can be skipped as before; and all of them score what they scored. Main statement:
if beams are never full, every best cell of a best valid parse is found again, and so is its result.
-/

namespace Categorial

/-- Whether a parse is there again among some parses: one with an equal result, and with a score
that is not smaller. -/
def Parse.recurs (qs : List (Parse Rat)) (q : Parse Rat) : Bool :=
  qs.any fun q' => q.result.same q'.result && decide (q.score ≤ q'.score)

theorem Parse.recurs_iff {qs : List (Parse Rat)} {q : Parse Rat} : q.recurs qs = true ↔
    ∃ q' ∈ qs, q.result.same q'.result = true ∧ q.score ≤ q'.score := by
  simp [recurs]

/-- Whether a chart has a cell again: the same derivation, with the same score. -/
def Chart.repeats (chart : Chart Rat) (c : Cell Rat) : Bool :=
  (chart.cells c.span).toOption.any fun cs => cs.any fun c' => c.sameNode c' && c'.score == c.score

theorem Chart.repeats_iff {chart : Chart Rat} {c : Cell Rat} : chart.repeats c = true ↔
    ∃ cs, chart.cells c.span = .ok cs ∧
      ∃ c' ∈ cs, c.sameNode c' = true ∧ c'.score = c.score := by
  rw [repeats]
  cases chart.cells c.span <;> simp [Except.toOption]

namespace Learner

/-- An item that is parsed again: a look for entries in it that ended, and a parse of its tokens
after that, without cuts. -/
structure Revisit (l : Learner Rat) (place : Place) (item : Item) (s s' : Session Rat)
    (proposed : Lexicon) (valid : List (Parse Rat)) (t : Sentence Rat) (chart : Chart Rat) :
    Prop where
  names : (s.model.lexical.map (·.name)).Nodup
  generated : item.generate = .ok proposed
  valid : l.validParses s.model item proposed = .ok valid
  ended : l.induce place item s = (.ok (), s')
  uncut : Sentence.Uncut l.analyzer.parser s'.model item.tokens .plain t chart

/-- The entries that a look for entries may use or teach, and then parse again: those of the model,
those proposed, those that are linked to them, and those that skip a token. -/
def involved (l : Learner Rat) (m : Model Rat) (item : Item) (proposed : Lexicon) : List Entry :=
  Entry.withLinked (m.lexicon.entries ++ proposed.entries) ++
    l.analyzer.parser.skippedEntries item.tokens

theorem mem_involved {l : Learner Rat} {m : Model Rat} {item : Item} {proposed : Lexicon}
    {part : Span} {e : Entry} (hpart : part.Within item.tokens.length)
    (he : l.analyzer.parser.Source m proposed item.tokens part e) :
    e ∈ l.involved m item proposed :=
  (he.mem hpart).elim (fun he => List.mem_append_left _ (List.mem_append_left _ he))
    (List.mem_append_right _)

/-- What the best of some valid parses teach. -/
def lessons (valid : List (Parse Rat)) : List Entry :=
  ((Parse.top valid).flatMap Parse.entries).flatMap Entry.lessons

namespace Revisit

variable {l : Learner Rat} {place : Place} {item : Item} {s s' : Session Rat} {proposed : Lexicon}
  {valid : List (Parse Rat)} {t : Sentence Rat} {chart : Chart Rat} {q : Parse Rat} {e u : Entry}

/-- The parse before the look for entries, which a best valid parse comes from. -/
theorem before (h : l.Revisit place item s s' proposed valid t chart) (hq : q ∈ Parse.top valid) :
    ∃ t₀, l.analyzer.parser.sentence s.model item.tokens
        ⟨some proposed, some l.config.inductionBeam⟩ = .ok t₀ ∧
      l.analyzer.Gives s.model item.state q.base q ∧ ∀ c ∈ q.base.cells,
        t₀.Derives c ∧ c.full = true ∧ q.base.category.same c.category = true :=
  derives_of_validParses h.valid (Parse.mem_of_mem_top hq)

theorem grown (h : l.Revisit place item s s' proposed valid t chart) : s.model.Grown s'.model := by
  have hgrows := grows_induce l place item s
  rwa [h.ended] at hgrows

theorem learned (h : l.Revisit place item s s' proposed valid t chart) :
    Model.Learned s.model s'.model (lessons valid) := by
  obtain ⟨proposed', valid', hgenerate, hvalid, hcases⟩ := induce_eq_ok h.ended
  obtain rfl := Except.ok.inj (h.generated.symm.trans hgenerate)
  obtain rfl := Except.ok.inj (h.valid.symm.trans hvalid)
  rcases hcases with ⟨-, rfl, hmodel, -⟩ | ⟨-, n, u, u', hu, -, htaught, hmodel, -⟩
  · rw [hmodel]
    exact Model.learned_of_addEntries rfl
  · have hlearned := Model.learned_of_addEntries htaught.model
    rwa [hu, ← hmodel] at hlearned

/-- The leaves of the best cells of a valid parse. -/
theorem source (h : l.Revisit place item s s' proposed valid t chart) (hq : q ∈ Parse.top valid)
    {c leaf : Cell Rat} (hc : c ∈ q.base.best) (hleaf : leaf ∈ c.leaves)
    (he : leaf.entry? = some e) :
    leaf.span.Within item.tokens.length ∧
      l.analyzer.parser.Source s.model proposed item.tokens leaf.span e ∧
        s.model.scoreEntry e = .ok leaf.score := by
  obtain ⟨t₀, ht₀, -, hderives⟩ := h.before hq
  exact Parser.source_of_derives ht₀ (hderives c (List.mem_filter.1 hc).1).1 hleaf he

/-- The entries that a best valid parse uses. -/
theorem source_of_used (h : l.Revisit place item s s' proposed valid t chart)
    (hq : q ∈ Parse.top valid) (hu : u ∈ q.entries) :
    ∃ part : Span, part.Within item.tokens.length ∧
      l.analyzer.parser.Source s.model proposed item.tokens part u := by
  obtain ⟨c, hc, hu⟩ := List.mem_flatMap.1 (mem_of_mem_distinct hu)
  obtain ⟨leaf, hleaf, hu⟩ := List.mem_filterMap.1 hu
  obtain ⟨hspan, hsource, -⟩ := h.source hq hc hleaf hu
  exact ⟨leaf.span, hspan, hsource⟩

/-- What is taught are entries of the model or proposed ones, or linked to them. -/
theorem among_of_mem_lessons (h : l.Revisit place item s s' proposed valid t chart)
    (he : e ∈ lessons valid) : e.Among (l.involved s.model item proposed) := by
  obtain ⟨u, hu, he⟩ := List.mem_flatMap.1 he
  obtain ⟨q, hq, hu⟩ := List.mem_flatMap.1 hu
  rw [Entry.lessons] at he
  split at he
  · cases he
  · rename_i horigin
    obtain ⟨x, hx, rfl⟩ := List.mem_map.1 he
    obtain ⟨part, hpart, hsource⟩ := h.source_of_used hq hu
    refine ⟨x, List.mem_append_left _ ?_, _, rfl⟩
    rcases hsource.mem hpart with hstored | hskipped
    · rcases List.mem_cons.1 hx with rfl | hx
      · exact List.mem_append_left _ hstored
      · exact List.mem_append_right _ (List.mem_flatMap.2 ⟨u, hstored, hx⟩)
    · rw [Parser.skippedEntries] at hskipped
      split at hskipped
      · -- an entry that skips a token teaches nothing
        obtain ⟨token, -, rfl⟩ := List.mem_map.1 hskipped
        exact absurd rfl horigin
      · cases hskipped

/-- The entries that the model has then. -/
theorem among_of_mem_get (h : l.Revisit place item s s' proposed valid t chart)
    {tokens : List String} (he : e ∈ s'.model.lexicon.get tokens) :
    e.Among (l.involved s.model item proposed) := by
  rw [h.learned.lexicon, Lexicon.get_foldl_insert] at he
  rcases mem_foldl_appendNew _ _ _ he with he | he
  · refine Entry.among_of_mem (List.mem_append_left _ (List.mem_append_left _ ?_))
    rw [Lexicon.get_eq_filter] at he
    exact List.mem_append_left _ (List.mem_filter.1 he).1
  · exact h.among_of_mem_lessons (List.mem_filter.1 he).1

theorem isDerivation_of_get (h : l.Revisit place item s s' proposed valid t chart) {part : Span}
    (hpart : part.Within item.tokens.length)
    (he : e ∈ s'.model.lexicon.get (Parser.tokensOf item.tokens part)) :
    t.IsDerivation (.entry e part) := by
  obtain ⟨hview, htokens⟩ := Parser.view_of_sentence h.uncut.sentence
  rw [← htokens] at hpart he
  refine .entry (Sentence.hasSpan_iff.2 hpart) ?_
  rw [hview]
  exact he

theorem isDerivation_skipper (h : l.Revisit place item s s' proposed valid t chart) {part : Span}
    (hpart : part.Within item.tokens.length)
    (hskips : l.analyzer.parser.config.skipsWords = true) (hone : part.length = 1) :
    t.IsDerivation (.entry (Parser.skipper l.analyzer.parser.skipped
      (Parser.tokensOf item.tokens part)) part) := by
  obtain ⟨hparser, -⟩ := Parser.parts_of_sentence h.uncut.sentence
  obtain ⟨-, htokens⟩ := Parser.view_of_sentence h.uncut.sentence
  rw [← htokens] at hpart ⊢
  rw [← hparser] at hskips ⊢
  exact .skip (Sentence.hasSpan_iff.2 hpart) hskips hone

/-- An entry of a best valid parse is there again, or one that is the same. -/
theorem exists_stored (h : l.Revisit place item s s' proposed valid t chart)
    (horigin : ∀ e ∈ proposed.entries, e.origin ≠ .skipping) (hq : q ∈ Parse.top valid)
    (hu : u ∈ q.entries) {part : Span}
    (hpart : part.Within item.tokens.length)
    (htokens : u.tokens = Parser.tokensOf item.tokens part) :
    ∃ e, t.IsDerivation (.entry e part) ∧ e.same u = true ∧
      e.Among (l.involved s.model item proposed) := by
  -- a parse has each entry once, so this one may have been found at another span
  obtain ⟨own, hown, hsource⟩ := h.source_of_used hq hu
  have hsource := hsource.at_tokens hown hpart (hsource.tokens_eq.symm.trans htokens)
  cases hsource with
  | known he =>
    have he := (h.grown.lexicon.get _).subset he
    exact ⟨u, h.isDerivation_of_get hpart he, Entry.same_refl u, h.among_of_mem_get he⟩
  | further he =>
    -- it was proposed, so it has been learned
    rw [Lexicon.get_eq_filter] at he
    have hlesson : u.withOrigin .learned ∈ lessons valid := by
      refine List.mem_flatMap.2 ⟨u, List.mem_flatMap.2 ⟨q, hq, hu⟩, ?_⟩
      rw [Entry.lessons, if_neg (horigin u (List.mem_filter.1 he).1)]
      exact List.mem_map_of_mem List.mem_cons_self
    have hcontains : s'.model.lexicon.contains u = true := by
      rw [h.learned.lexicon, Lexicon.contains_foldl_insert]
      exact Or.inr ⟨_, hlesson, Entry.same_refl u⟩
    obtain ⟨e, he, hsame⟩ := List.any_eq_true.1 hcontains
    rw [htokens] at he
    exact ⟨e, h.isDerivation_of_get hpart he, hsame, h.among_of_mem_get he⟩
  | skip hskips hone =>
    refine ⟨_, h.isDerivation_skipper hpart hskips hone, Entry.same_refl _, ?_⟩
    exact Entry.among_of_mem (mem_involved hpart (.skip hskips hone))

section

variable (h : l.Revisit place item s s' proposed valid t chart)
  (hkeys : s.model.KeysMatch (l.involved s.model item proposed))

include h hkeys

/-- The scores of all these entries stay. -/
theorem scoreEntry_eq (he : e.Among (l.involved s.model item proposed)) :
    t.model.scoreEntry e = s.model.scoreEntry e := by
  rw [(Parser.parts_of_sentence h.uncut.sentence).2.1]
  exact h.learned.scoreEntry_of_keysMatch h.names hkeys (fun _ hx => h.among_of_mem_lessons hx) he

theorem skipsAlike : t.SkipsAlike := by
  intro hskips part hpart hone e he hsame
  obtain ⟨hparser, -⟩ := Parser.parts_of_sentence h.uncut.sentence
  obtain ⟨hview, htokens⟩ := Parser.view_of_sentence h.uncut.sentence
  rw [hview, htokens] at he
  rw [hparser] at hskips hsame ⊢
  rw [Sentence.hasSpan_iff, htokens] at hpart
  rw [htokens] at hsame ⊢
  have hskipped : (Parser.skipper l.analyzer.parser.skipped
      (Parser.tokensOf item.tokens part)).Among (l.involved s.model item proposed) :=
    Entry.among_of_mem (mem_involved hpart (.skip hskips hone))
  have hstored : e.Among (l.involved s.model item proposed) := h.among_of_mem_get he
  rw [h.scoreEntry_eq hkeys hskipped, h.scoreEntry_eq hkeys hstored]
  exact hkeys.scoreEntry_eq hskipped hstored (Entry.same_symm hsame)

variable (horigin : ∀ e ∈ proposed.entries, e.origin ≠ .skipping)

include horigin

/-- The sentence affords the entries of the best cells of a valid parse. -/
theorem affords (hq : q ∈ Parse.top valid) {c leaf : Cell Rat} (hc : c ∈ q.base.best)
    (hleaf : leaf ∈ c.leaves) (he : leaf.entry? = some e) :
    t.Affords e leaf.span leaf.score := by
  obtain ⟨hpart, hsource, hscore⟩ := h.source hq hc hleaf he
  have hinvolved : e.Among (l.involved s.model item proposed) :=
    Entry.among_of_mem (mem_involved hpart hsource)
  have hused : e ∈ q.base.best.flatMap Cell.entries :=
    List.mem_flatMap.2 ⟨c, hc, List.mem_filterMap.2 ⟨leaf, hleaf, he⟩⟩
  obtain ⟨u, hu, hsame⟩ := exists_distinct Entry.same_refl hused
  have htokens : u.tokens = Parser.tokensOf item.tokens leaf.span :=
    (Entry.tokens_eq_of_same hsame).trans hsource.tokens_eq
  obtain ⟨e', hderivation, hsame', he'⟩ := h.exists_stored horigin hq hu hpart htokens
  have hsame := Entry.same_trans hsame' hsame
  refine ⟨e', hderivation, hsame, ?_⟩
  rw [h.scoreEntry_eq hkeys he', hkeys.scoreEntry_eq he' hinvolved hsame, hscore]

/-- The chart has every best cell of a best valid parse again. -/
theorem exists_cell {chart' : Chart Rat} (hcomplete : t.Complete chart') (hq : q ∈ Parse.top valid)
    {c : Cell Rat} (hc : c ∈ q.base.best) : ∃ cs, chart'.cells c.span = .ok cs ∧
      ∃ c' ∈ cs, c.sameNode c' = true ∧ c'.score = c.score := by
  obtain ⟨t₀, ht₀, -, hderives⟩ := h.before hq
  obtain ⟨hparser₀, hmodel₀, -⟩ := Parser.parts_of_sentence ht₀
  obtain ⟨hparser, hmodel, -⟩ := Parser.parts_of_sentence h.uncut.sentence
  have hc₀ := (hderives c (List.mem_filter.1 hc).1).1
  have hgrammar : t.parser.grammar = t₀.parser.grammar := by rw [hparser, hparser₀]
  have hcoherent : t₀.parser.grammar.Coherent := hparser₀ ▸ h.uncut.coherent
  have hrules : ∀ rule, t.model.scoreRule rule = t₀.model.scoreRule rule := by
    intro rule
    rw [hmodel, hmodel₀, h.learned.scoreRule_eq]
  obtain ⟨T, hT, hdescribes, hspan, hscore⟩ := hc₀.replay hgrammar hcoherent hrules
    fun leaf hleaf e he => h.affords hkeys horigin hq hc hleaf he
  rw [← hspan]
  exact hcomplete.exists_again h.uncut.exhaustive (h.skipsAlike hkeys) hc₀ hT hdescribes hscore

/-- The derivations of the item have the category of a best valid parse, with a score that is not
smaller, if the derivations of this category have a root type. -/
theorem exists_derivation {chart' : Chart Rat} (hcomplete : t.Complete chart')
    (hq : q ∈ Parse.top valid)
    (hroots : ∀ T, t.IsDerivation T → T.span = ⟨0, item.tokens.length⟩ →
      q.base.category.same T.category = true → t.blank.isRootType T.category.type = true)
    {ds : List (Derivation Rat)} (hds : Derivation.ofChart chart' = .ok ds) :
    ∃ d ∈ ds, q.base.category.same d.category = true ∧ q.base.score ≤ d.score := by
  obtain ⟨t₀, ht₀, -, hderives⟩ := h.before hq
  obtain ⟨-, htokens₀⟩ := Parser.view_of_sentence ht₀
  obtain ⟨-, htokens⟩ := Parser.view_of_sentence h.uncut.sentence
  obtain ⟨c, hc, hscore⟩ := Sentence.score_mem q.base
  obtain ⟨hc₀, hfull, hcategory⟩ := hderives c hc
  have hbest : c ∈ q.base.best := List.mem_filter.2 ⟨hc, beq_iff_eq.2 hscore⟩
  obtain ⟨all, hall, c', hc', hnode, hscore'⟩ := h.exists_cell hkeys horigin hcomplete hq hbest
  obtain ⟨hspan, -⟩ := hc₀.full_iff.1 hfull
  rw [hspan, htokens₀] at hall
  have hcategory' := Category.same_trans hcategory (Cell.category_same_of_sameNode hnode)
  obtain ⟨T, hT, -, hTcategory, hTspan, -⟩ := hcomplete.exists_tree hall hc'
  have hroot := hroots T hT hTspan (hTcategory ▸ hcategory')
  obtain ⟨hc'₀, hspan'⟩ := hcomplete.derives hall hc'
  have hfull' : c'.full = true := by
    rw [hc'₀.full_iff, htokens, ← hTcategory]
    exact ⟨hspan', hroot⟩
  -- the cell that is found again is a full parse, and its group scores at least as much
  obtain ⟨cs, ds', hcs, hds', hgroups, -⟩ := hcomplete.ofChart_eq
  obtain rfl := Except.ok.inj (hds.symm.trans hds')
  have hin : c' ∈ cs := (hcomplete.mem_fullParses hcs).2 ⟨hfull', all, htokens ▸ hall, hc'⟩
  obtain ⟨d, hd, hmem⟩ := hgroups.mem_iff.1 hin
  refine ⟨d, hd, ?_, ?_⟩
  · exact Category.same_trans hcategory' (Category.same_symm (hgroups.category_same hd hmem))
  · have hle := Scalar.not_lt_maximum d.first.score (d.others.map Cell.score) c'.score
      (List.mem_map_of_mem (f := Cell.score) hmem)
    rw [← hscore, ← hscore']
    exact not_lt.1 (of_decide_eq_false hle)

end

/-- If the parser looks for a root type, derivations of the category of a valid parse have it. -/
theorem roots_of_root (h : l.Revisit place item s s' proposed valid t chart) {root : Typing}
    (hroot : l.analyzer.parser.config.root = some root) (hq : q ∈ Parse.top valid) {c : Category}
    (hsame : q.base.category.same c = true) : t.blank.isRootType c.type = true := by
  obtain ⟨t₀, ht₀, -, hderives⟩ := h.before hq
  obtain ⟨-, -, hroot₀, -⟩ := Parser.parts_of_sentence ht₀
  obtain ⟨-, -, hroot', -⟩ := Parser.parts_of_sentence h.uncut.sentence
  obtain ⟨hfirst, hfull, -⟩ := hderives q.base.first List.mem_cons_self
  have htype := (hfirst.full_iff.1 hfull).2
  rw [Chart.isRootType, hroot₀, hroot] at htype
  rw [Chart.isRootType, hroot', hroot]
  rw [Category.same, Bool.and_eq_true] at hsame
  exact Typing.same_trans (Typing.same_symm hsame.1) htype

/-- After a look for entries in an item, every best cell of a best valid parse is in the chart of
the next parse of the item, as the same derivation with the same score; and its result is among the
parses, with a score that is not smaller, if the derivations of its category have a root type and
the executor gives equal results to equal meanings. The keys of all entries that can be used, those
that skip tokens included, must tell them apart, and no proposed entry may be marked as one that
skips tokens. -/
theorem found_again (h : l.Revisit place item s s' proposed valid t chart)
    (hkeys : s.model.KeysMatch (l.involved s.model item proposed))
    (horigin : ∀ e ∈ proposed.entries, e.origin ≠ .skipping) (hq : q ∈ Parse.top valid) :
    (∀ c ∈ q.base.best, chart.repeats c = true) ∧
      ∀ analysis,
        (l.analyzer.analyze s'.model item.tokens item.state .plain).result = .ok analysis →
        (∀ T, t.IsDerivation T → T.span = ⟨0, item.tokens.length⟩ →
          q.base.category.same T.category = true → t.blank.isRootType T.category.type = true) →
        (∀ executor, l.analyzer.executor = some executor → executor.Coherent item.state) →
          q.recurs analysis.parses = true := by
  refine ⟨fun c hc => ?_, fun analysis hanalysis hroots hexecutor => ?_⟩
  · exact Chart.repeats_iff.2 (h.exists_cell hkeys horigin h.uncut.complete hq hc)
  · obtain ⟨t₀, ht₀, hgives, -⟩ := h.before hq
    obtain ⟨hchart, ds, hds, hparses⟩ := Analyzer.parses_of_analyze hanalysis
    have hcomplete := Parser.complete_of_chart h.uncut.sentence (Or.inl hchart)
    obtain ⟨d, hd, hcategory, hscore⟩ :=
      h.exists_derivation hkeys horigin hcomplete hq hroots hds
    obtain ⟨q', hgives', hresult, hle⟩ := hgives.exists_again hexecutor
      (h.learned.scoreExecution_eq h.grown.executions) hcategory hscore
    exact Parse.recurs_iff.2 ⟨q', (hparses q').2 ⟨d, hd, hgives'⟩, hresult, hle⟩

end Revisit

/-- The chart of a parse with the proposed entries, the valid parses, and the analysis after a look
for entries. -/
def revisit (l : Learner Rat) (m : Model Rat) (item : Item) (proposed : Lexicon) :
    Except Fault (Chart Rat × List (Parse Rat) × Analysis Rat) := do
  let chart ← (l.analyzer.parser.chart m item.tokens
    ⟨some proposed, some l.config.inductionBeam⟩).result
  let valid ← l.validParses m item proposed
  let run := l.induce ⟨0, 0⟩ item (l.start m)
  run.1
  let analysis ← (l.analyzer.analyze run.2.model item.tokens item.state .plain).result
  return (chart, valid, analysis)

/-- Whether a look for entries with a model, and the parses of the item before and after it, are
without cuts, and leave valid parses and an analysis that pass a test. -/
def Revisits (l : Learner Rat) (m : Model Rat) (item : Item) (proposed : Lexicon)
    (test : List (Parse Rat) → Analysis Rat → Bool) : Prop :=
  ∃ s valid t t' chart analysis,
    l.Revisit ⟨0, 0⟩ item (l.start m) s proposed valid t' analysis.chart ∧
    Sentence.Uncut l.analyzer.parser m item.tokens
      ⟨some proposed, some l.config.inductionBeam⟩ t chart ∧
    (l.analyzer.analyze s.model item.tokens item.state .plain).result = .ok analysis ∧
    test valid analysis = true

/-- Runs on fixed inputs can be computed. -/
theorem revisits_of_revisit {l : Learner Rat} {m : Model Rat} {item : Item} {proposed : Lexicon}
    {test : List (Parse Rat) → Analysis Rat → Bool} {k k' : Nat}
    (hnames : (m.lexical.map (·.name)).Nodup) (hgenerated : item.generate = .ok proposed)
    (hcoherent : l.analyzer.parser.grammar.Coherent)
    (hroom : l.config.inductionBeam.whole = .ok k)
    (hroom' : l.analyzer.parser.config.beamSize.whole = .ok k')
    (h : ((l.revisit m item proposed).toOption.any fun (chart, valid, analysis) =>
      chart.fits k && analysis.chart.fits k' && test valid analysis) = true) :
    l.Revisits m item proposed test := by
  cases hrevisit : l.revisit m item proposed with
  | error fault => simp [hrevisit, Except.toOption] at h
  | ok found =>
    simp only [hrevisit, Except.toOption, Option.any_some, Bool.and_eq_true] at h
    obtain ⟨⟨hfits, hfits'⟩, htest⟩ := h
    obtain ⟨chart, hchart, hrevisit⟩ := bind_eq_ok.1 hrevisit
    obtain ⟨valid, hvalid, hrevisit⟩ := bind_eq_ok.1 hrevisit
    obtain ⟨u, hrun, hrevisit⟩ := bind_eq_ok.1 hrevisit
    obtain ⟨analysis, hanalysis, hrevisit⟩ := bind_eq_ok.1 hrevisit
    obtain rfl := Except.ok.inj hrevisit
    obtain ⟨hchart', -⟩ := Analyzer.parses_of_analyze hanalysis
    obtain ⟨t, ht⟩ := Parser.exists_sentence hchart
    obtain ⟨t', ht'⟩ := Parser.exists_sentence hchart'
    obtain ⟨-, -, -, hbeam⟩ := Parser.parts_of_sentence ht
    obtain ⟨-, -, -, hbeam'⟩ := Parser.parts_of_sentence ht'
    refine ⟨_, valid, t, t', chart, analysis, ⟨hnames, hgenerated, hvalid, Prod.ext hrun rfl, ?_⟩,
      ?_, hanalysis, htest⟩
    · exact ⟨ht', Or.inl hchart', hcoherent, k', hbeam' ▸ hroom', hfits'⟩
    · exact ⟨ht, Or.inl hchart, hcoherent, k, hbeam ▸ hroom, hfits⟩

/-- An entry of a token that means a noun. -/
def nounEntry (token : String) (meaning : Value) (origin : Origin) (linked : List Entry) : Entry :=
  ⟨[token], ⟨some (.primitive "N"), meaning⟩, origin, linked⟩

/-- An item for whose tokens one entry is proposed. -/
def proposing (tokens : List String) (label : Value) (e : Entry) : Item :=
  ⟨tokens, .none, label, some fun _ => .ok (.ofList [e]), none⟩

/-- A learner for one item. -/
def learnerOf (rules : List BinaryRule) (root : Option Typing) (skips : Bool)
    (executor : Option Executor) (item : Item) : Learner Rat where
  items := [item]
  analyzer := ⟨.create (.ofRules rules []) ⟨.int 50, root, skips, .int 1⟩ .structural .empty false,
    executor⟩
  config := ⟨.int 1, .int 10, .int 50, true⟩
  perceptron := none
  observers := []
  timer := Meter.record

/-- A model with one entry that scores entries by the number of their tokens. -/
def modelOf (coefficient : Int) (e : Entry) (weights : List (FeatureKey × Rat)) : Model Rat :=
  ⟨.ofList [e], [⟨"LEX", .length (.int coefficient) (.int 1)⟩], [], [], .ofPairs weights⟩

theorem revisits_learnerOf {rules : List BinaryRule} (hrules : ∀ rule ∈ rules, rule.Coherent)
    {root : Option Typing} {skips : Bool} {executor : Option Executor} {m : Model Rat} {item : Item}
    {proposed : Lexicon} {test : List (Parse Rat) → Analysis Rat → Bool}
    (hnames : (m.lexical.map (·.name)).Nodup) (hgenerated : item.generate = .ok proposed)
    (h : (((learnerOf rules root skips executor item).revisit m item proposed).toOption.any
      fun (chart, valid, analysis) =>
        chart.fits 50 && analysis.chart.fits 50 && test valid analysis) = true) :
    (learnerOf rules root skips executor item).Revisits m item proposed test := by
  refine revisits_of_revisit hnames hgenerated ?_ rfl rfl h
  refine Parser.coherent_create (fun rule hrule => ?_) (fun rule hrule => ?_) _ _ _ _
  · exact hrules rule (Grammar.madeOf_ofRules.binary rule hrule)
  · exact absurd (Grammar.madeOf_ofRules.unary rule hrule) List.not_mem_nil

theorem coherent_keepFirst : Sentence.keepFirst.Coherent := by
  intro a a' b b' ha hb results hresults
  obtain rfl := Except.ok.inj hresults
  exact ⟨_, rfl, by simp [RuleResult.Among, ha]⟩

/-- The root type of nouns. -/
def nounRoot : Option Typing := some (some (.primitive "N"))

def firstEntry : Entry := nounEntry "a" (.bool true) .generated []

/-- An entry is proposed for the first token, the model has one for the second token, and the last
token can only be skipped. -/
def mixedItem : Item := proposing ["a", "b", "c"] (.bool true) firstEntry

def mixedLearner : Learner Rat := learnerOf [Sentence.keepFirst] nounRoot true none mixedItem

def mixedModel : Model Rat :=
  modelOf 1 ⟨["b"], ⟨some (.primitive "S"), .none⟩, .fixed, []⟩ [(["LEX", "b", "S"], 5)]

/-- A parse that uses entries of all three kinds is found again. -/
theorem found_again_mixed : ∃ s valid t, ∃ analysis : Analysis Rat, ∃ q,
    mixedLearner.Revisit ⟨0, 0⟩ mixedItem (mixedLearner.start mixedModel) s (.ofList [firstEntry])
      valid t analysis.chart ∧
    q ∈ Parse.top valid ∧ q.entries.map Entry.tokens = [["a"], ["b"], ["c"]] ∧
    (∀ c ∈ q.base.best, analysis.chart.repeats c = true) ∧ q.recurs analysis.parses = true := by
  obtain ⟨s, valid, -, t, -, analysis, hrevisit, -, hanalysis, htest⟩ :
      mixedLearner.Revisits mixedModel mixedItem (.ofList [firstEntry]) fun valid _ =>
        (Parse.top valid).any fun q => q.entries.map Entry.tokens == [["a"], ["b"], ["c"]] :=
    revisits_learnerOf (fun rule hrule => List.mem_singleton.1 hrule ▸ coherent_keepFirst)
      (by decide) rfl (by decide +kernel)
  obtain ⟨q, hq, htokens⟩ := List.any_eq_true.1 htest
  have hkeys : mixedModel.KeysMatch
      (mixedLearner.involved mixedModel mixedItem (.ofList [firstEntry])) := by decide +kernel
  obtain ⟨hcells, hresult⟩ := hrevisit.found_again hkeys (by decide +kernel) hq
  refine ⟨s, valid, t, analysis, q, hrevisit, hq, beq_iff_eq.1 htokens, hcells, ?_⟩
  refine hresult analysis hanalysis (fun T _ _ hsame => ?_) fun executor hexecutor => ?_
  · exact hrevisit.roots_of_root rfl hq hsame
  · cases hexecutor

/-- Whether a test fails for a best valid parse of an item and the analysis after a look for
entries, though no beam was full, no two feature sets have one name, and the entries of the model,
those proposed and those linked to them share a key just if they are the same. -/
def Misses (l : Learner Rat) (m : Model Rat) (item : Item) (e : Entry)
    (again : Parse Rat → Analysis Rat → Bool) : Prop :=
  m.KeysMatch (Entry.withLinked (m.lexicon.entries ++ [e])) ∧
    l.Revisits m item (.ofList [e]) fun valid analysis =>
      (Parse.top valid).any fun q => !again q analysis

/-- Whether the best cells of a parse are found again. -/
def cellsAgain (q : Parse Rat) (analysis : Analysis Rat) : Bool :=
  q.base.best.all analysis.chart.repeats

/-- Whether the result of a parse is found again. -/
def resultAgain (q : Parse Rat) (analysis : Analysis Rat) : Bool := q.recurs analysis.parses

/-- The entry of the model is linked to one of the tokens `a` and `b`, which has the key of an entry
that skips the token `a b`. -/
def blankModel : Model Rat :=
  modelOf (-1) (nounEntry "x" (.text "x") .fixed [⟨["a", "b"], .empty, .fixed, []⟩]) []

def plainEntry : Entry := nounEntry "x" (.text "x") .generated []

def blankItem : Item := proposing ["a b", "x"] (.text "x") plainEntry

theorem misses_blank : Misses (learnerOf [] nounRoot true none blankItem) blankModel blankItem
    plainEntry cellsAgain :=
  ⟨by decide +kernel, revisits_learnerOf (by simp) (by decide) rfl (by decide +kernel)⟩

/-- The proposed entry is marked as one that skips tokens. -/
def markedEntry : Entry := nounEntry "a" (.bool true) .skipping []

def markedItem : Item := proposing ["a"] (.bool true) markedEntry

theorem misses_marked : Misses (learnerOf [] nounRoot false none markedItem) mixedModel markedItem
    markedEntry cellsAgain :=
  ⟨by decide +kernel, revisits_learnerOf (by simp) (by decide) rfl (by decide +kernel)⟩

/-- The entry of the model is linked to one whose type is no root type, and equal to that of the
proposed entry. -/
def namedModel : Model Rat :=
  modelOf 1 (nounEntry "w" (.text "x") .fixed
    [⟨["w"], ⟨some (.coordination (.primitive "NP")), .text "a"⟩, .fixed, []⟩]) []

def namedEntry : Entry := ⟨["w"], ⟨some (.primitive "C[NP]"), .text "a"⟩, .generated, []⟩

def namedItem : Item :=
  { proposing ["w"] .none namedEntry with validator := some fun _ => .ok true }

theorem misses_named : Misses (learnerOf [] none false none namedItem) namedModel namedItem
    namedEntry resultAgain :=
  ⟨by decide +kernel, revisits_learnerOf (by simp) (by decide) rfl (by decide +kernel)⟩

/-- An executor that tells the number one and true apart, which are equal. -/
def displaying : Executor := fun meaning _ => pure (.text meaning.display)

/-- The proposed entry means true; it is linked to one that means the number one and scores more. -/
def equalEntry : Entry := nounEntry "b" (.bool true) .generated [nounEntry "a" (.int 1) .fixed []]

def equalModel : Model Rat :=
  modelOf 1 ⟨["b"], ⟨some (.primitive "S"), .none⟩, .fixed, []⟩ [(["LEX", "a", "N : 1"], 5)]

def equalItem : Item := proposing ["a", "b"] (.tuple [.bool true, .text "True"]) equalEntry

theorem misses_equal : Misses (learnerOf [] nounRoot true (some displaying) equalItem) equalModel
    equalItem equalEntry resultAgain :=
  ⟨by decide +kernel, revisits_learnerOf (by simp) (by decide) rfl (by decide +kernel)⟩

/-- A cell need not be found again if its entry skips a token and shares a key with an entry that is
learned, or is marked as one that skips tokens; nor need a result be, if a category that is equal is
no root type, or the executor tells equal meanings apart. -/
theorem not_found_again :
    Misses (learnerOf [] nounRoot true none blankItem) blankModel blankItem plainEntry cellsAgain ∧
    Misses (learnerOf [] nounRoot false none markedItem) mixedModel markedItem markedEntry
      cellsAgain ∧
    Misses (learnerOf [] none false none namedItem) namedModel namedItem namedEntry resultAgain ∧
    Misses (learnerOf [] nounRoot true (some displaying) equalItem) equalModel equalItem equalEntry
      resultAgain :=
  ⟨misses_blank, misses_marked, misses_named, misses_equal⟩

end Learner

end Categorial
