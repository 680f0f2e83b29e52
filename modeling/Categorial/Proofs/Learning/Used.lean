import Categorial.Proofs.Learning.Teaching
import Categorial.Proofs.Parsing.Executed
import Categorial.Proofs.Parsing.Outcome
import Categorial.Proofs.Parsing.Replay

/-!
The valid parses of an item. Main statements: they are made of derivations of its tokens with the
proposed entries; so the entries that they use are entries of the model or proposed ones, or skip
tokens.
-/

namespace Categorial.Learner

variable {K : Type} [Scalar K] {l : Learner K} {m : Model K} {item : Item} {proposed : Lexicon}
  {valid : List (Parse K)} {q : Parse K}

/-- The valid parses of an item are made of derivations of its tokens with the proposed entries. -/
theorem derives_of_validParses (h : l.validParses m item proposed = .ok valid) (hq : q ∈ valid) :
    ∃ t, l.analyzer.parser.sentence m item.tokens
        ⟨some proposed, some l.config.inductionBeam⟩ = .ok t ∧
      l.analyzer.Gives m item.state q.base q ∧ ∀ c ∈ q.base.cells, t.Derives c ∧ c.full = true ∧
        q.base.category.same c.category = true := by
  rw [validParses] at h
  split at h
  · obtain rfl := Except.ok.inj h
    cases hq
  · obtain ⟨analysis, hanalysis, hfilter⟩ := bind_eq_ok.1 h
    obtain ⟨hchart, ds, hds, hparses⟩ := Analyzer.parses_of_analyze hanalysis
    obtain ⟨d, hd, hgives⟩ := (hparses q).1 (mem_of_filterM hfilter hq)
    obtain ⟨t, ht⟩ := Parser.exists_sentence hchart
    have hcomplete := Parser.complete_of_chart ht (Or.inl hchart)
    obtain ⟨cs, ds', hcs, hds', hgroups, -⟩ := hcomplete.ofChart_eq
    obtain rfl := Except.ok.inj (hds.symm.trans hds')
    rw [hgives.base_eq]
    refine ⟨t, ht, hgives, fun c hc => ?_⟩
    obtain ⟨hfull, all, hall, hin⟩ :=
      (hcomplete.mem_fullParses hcs).1 (hgroups.mem_iff.2 ⟨d, hd, hc⟩)
    exact ⟨(hcomplete.derives hall hin).1, hfull, hgroups.category_same hd hc⟩

/-- An entry that a valid parse uses is one of the model or a proposed one, or skips a token. -/
theorem stored_of_used (h : l.validParses m item proposed = .ok valid) (hq : q ∈ valid) {u : Entry}
    (hu : u ∈ q.entries) :
    u ∈ m.lexicon.entries ∨ u ∈ proposed.entries ∨ u.origin = .skipping := by
  obtain ⟨t, ht, -, hcells⟩ := derives_of_validParses h hq
  obtain ⟨c, hc, hu⟩ := List.mem_flatMap.1 (mem_of_mem_distinct hu)
  obtain ⟨leaf, hleaf, hu⟩ := List.mem_filterMap.1 hu
  have hderives := (hcells c (List.mem_filter.1 hc).1).1.of_mem_leaves hleaf
  obtain ⟨entries, hentries, hmem, -⟩ := hderives.entry_mem hu
  rcases (Sentence.mem_entriesAt hentries).1 hmem with hstored | ⟨-, -, rfl⟩
  · rw [(Parser.view_of_sentence ht).1, Parser.lexicon, LexiconView.get] at hstored
    have hparts := LexiconView.mem_of_mem_distinctEntries hstored
    simp only [LexiconView.getAll, LexiconView.get, List.append_nil, List.mem_append,
      Lexicon.get_eq_filter, List.mem_filter] at hparts
    exact hparts.imp And.left fun hproposed => Or.inl hproposed.1
  · exact Or.inr (Or.inr rfl)

end Categorial.Learner
