import Categorial.Proofs.Parsing.Best
import Categorial.Proofs.Parsing.Linear
import Categorial.Proofs.Parsing.Outcome

/-!
What a parse puts out: the retained cells of the whole sentence with a root type, parted by their
categories and ranked by their scores. Main statement: every such cell is in exactly one derivation
and no other cell is in any, two of them share a derivation just if their categories are the same,
and the derivations are described by their best cells and ranked, equal scores in the order of the
chart.
-/

namespace Categorial

namespace Derivation

variable {K : Type}

/-- Whether derivations part some cells by their categories. -/
structure Parts (cs : List (Cell K)) (ds : List (Derivation K)) : Prop where
  covers : ∀ c ∈ cs, ∃! d, d ∈ ds ∧ c ∈ d.cells
  /-- The cells of a derivation are in the order of the list. -/
  within : ∀ d ∈ ds, d.cells.Sublist cs
  once : (ds.flatMap cells).Nodup
  share : ∀ c ∈ cs, ∀ c' ∈ cs,
    (∃ d ∈ ds, c ∈ d.cells ∧ c' ∈ d.cells) ↔ c.category.same c'.category = true

theorem Groups.parts {cs : List (Cell K)} {ds : List (Derivation K)} (h : Groups cs ds)
    (hcs : cs.Nodup) : Parts cs ds where
  covers := by
    intro c hc
    obtain ⟨d, hd, hmem⟩ := h.mem_iff.1 hc
    refine ⟨d, ⟨hd, hmem⟩, ?_⟩
    rintro d' ⟨hd', hmem'⟩
    refine eq_of_pairwise (fun d d' => Category.same_comm d.category d'.category) h.apart hd' hd ?_
    exact Category.same_trans (h.category_same hd' hmem')
      (Category.same_symm (h.category_same hd hmem))
  within d hd := cells_sublist_of_mem (h.perm.mem_iff.1 hd)
  once := ((h.perm.flatMap_right cells).trans (group_perm cs)).nodup_iff.2 hcs
  share := by
    intro c hc c' hc'
    constructor
    · rintro ⟨d, hd, hmem, hmem'⟩
      exact Category.same_trans (Category.same_symm (h.category_same hd hmem))
        (h.category_same hd hmem')
    · intro hsame
      obtain ⟨d, hd, hmem⟩ := h.mem_iff.1 hc
      exact ⟨d, hd, hmem, h.mem_cells hd hc' (Category.same_trans (h.category_same hd hmem) hsame)⟩

variable [Scalar K]

/-- What a derivation tells about its cells: its score is the greatest one, its best cells are those
that have it, and its entries and rules are those of the best cells. -/
structure Describes (d : Derivation K) : Prop where
  attained : ∃ c ∈ d.cells, c.score = d.score
  bound : ∀ c ∈ d.cells, Scalar.le c.score d.score = true
  best_ne_nil : d.best ≠ []
  mem_best : ∀ c, c ∈ d.best ↔ c ∈ d.cells ∧ ∀ c' ∈ d.cells, Scalar.le c'.score c.score = true
  entries_apart : d.entries.Pairwise fun e e' => e.same e' = false
  entries_sound : ∀ e ∈ d.entries, ∃ c ∈ d.best, ∃ b, Cell.Inside b c ∧ b.entry? = some e
  entries_complete : ∀ c ∈ d.best, ∀ b, Cell.Inside b c → ∀ e, b.entry? = some e →
    ∃ e' ∈ d.entries, e'.same e = true
  rules_nodup : d.rules.Nodup
  mem_rules : ∀ r, r ∈ d.rules ↔
    ∃ c ∈ d.best, ∃ b, Cell.Inside b c ∧ b.entry? = none ∧ b.rule = r

theorem entries_sound {d : Derivation K} {e : Entry} (he : e ∈ d.entries) :
    ∃ c ∈ d.best, ∃ b, Cell.Inside b c ∧ b.entry? = some e := by
  obtain ⟨c, hc, he⟩ := List.mem_flatMap.1 (mem_of_mem_distinct he)
  exact ⟨c, hc, Cell.mem_entries_iff.1 he⟩

theorem entries_complete {d : Derivation K} {b c : Cell K} {e : Entry} (hc : c ∈ d.best)
    (hb : Cell.Inside b c) (he : b.entry? = some e) : ∃ e' ∈ d.entries, e'.same e = true :=
  exists_distinct Entry.same_refl (List.mem_flatMap.2 ⟨c, hc, Cell.mem_entries_iff.2 ⟨b, hb, he⟩⟩)

theorem mem_rules_iff {d : Derivation K} {r : RuleName} : r ∈ d.rules ↔
    ∃ c ∈ d.best, ∃ b, Cell.Inside b c ∧ b.entry? = none ∧ b.rule = r := by
  have hdistinct : r ∈ d.rules ↔ r ∈ d.best.flatMap Cell.rules := by
    refine ⟨mem_of_mem_distinct, fun hr => ?_⟩
    obtain ⟨r', hr', hsame⟩ := exists_distinct (fun r => beq_self_eq_true r) hr
    rwa [← eq_of_beq hsame]
  rw [hdistinct, List.mem_flatMap]
  simp only [Cell.mem_rules_iff]

variable [OrderedScalar K]

theorem bound {d : Derivation K} (h : ∀ c ∈ d.cells, Scalar.Defined c.score) {c : Cell K}
    (hc : c ∈ d.cells) : Scalar.le c.score d.score = true := by
  obtain ⟨c', hc', hscore⟩ := Sentence.score_mem d
  refine Scalar.le_of_not_lt (hscore ▸ h c' hc') (h c hc) ?_
  exact Scalar.not_lt_maximum _ _ _ (List.mem_map_of_mem (f := Cell.score) hc)

/-- The best cells are those that no other cell outscores. -/
theorem mem_best_iff {d : Derivation K} (h : ∀ c ∈ d.cells, Scalar.Defined c.score) {c : Cell K} :
    c ∈ d.best ↔ c ∈ d.cells ∧ ∀ c' ∈ d.cells, Scalar.le c'.score c.score = true := by
  obtain ⟨top, htop, hscore⟩ := Sentence.score_mem d
  rw [best, List.mem_filter, ← hscore]
  refine and_congr_right fun hc => ?_
  rw [OrderedScalar.same_iff_level (h c hc)]
  constructor
  · intro hlevel c' hc'
    rw [OrderedScalar.le_iff_level (h c' hc') (h c hc), hlevel,
      ← OrderedScalar.le_iff_level (h c' hc') (h top htop), hscore]
    exact bound h hc'
  · intro hgreatest
    have hbound := bound h hc
    rw [← hscore, OrderedScalar.le_iff_level (h c hc) (h top htop)] at hbound
    exact hbound.antisymm
      ((OrderedScalar.le_iff_level (h top htop) (h c hc)).1 (hgreatest top htop))

theorem describes {d : Derivation K} (h : ∀ c ∈ d.cells, Scalar.Defined c.score) :
    d.Describes where
  attained := Sentence.score_mem d
  bound _ hc := bound h hc
  best_ne_nil := Sentence.best_ne_nil_of_defined h
  mem_best _ := mem_best_iff h
  entries_apart := pairwise_distinct Entry.same _
  entries_sound _ he := entries_sound he
  entries_complete _ hc _ hb _ he := entries_complete hc hb he
  rules_nodup := (pairwise_distinct (fun r r' : RuleName => r == r') _).imp ne_of_beq_false
  mem_rules _ := mem_rules_iff

end Derivation

namespace Sentence

variable {K : Type} [Scalar K] {t : Sentence K} {chart : Chart K}

/-- The cells of a chart that are full parses: those of the whole sentence with a root type. -/
theorem Complete.filter_full (h : t.Complete chart) :
    (chart.cellsOver ⟨0, t.tokens.length⟩).filter Cell.full =
      (chart.cellsOver ⟨0, t.tokens.length⟩).filter fun c => chart.isRootType c.category.type := by
  refine List.filter_congr fun c hc => ?_
  obtain ⟨cs, hcs, hc⟩ := Chart.mem_cellsOver.1 hc
  obtain ⟨hderives, hspan⟩ := h.derives hcs hc
  have hroot : t.blank.isRootType c.category.type = chart.isRootType c.category.type := by
    rw [Chart.isRootType, Chart.isRootType, h.frames.root]
  rw [Bool.eq_iff_iff, hderives.full_iff, hroot]
  exact and_iff_right hspan

/-- No cell is retained twice over a span. -/
theorem Complete.nodup_cellsOver (h : t.Complete chart) (s : Span) :
    (chart.cellsOver s).Nodup := by
  rw [Chart.cellsOver]
  cases hcs : chart.cells s with
  | error fault => exact List.nodup_nil
  | ok cs =>
    refine (h.apart hcs).imp ?_
    rintro c d hapart rfl
    rw [Cell.sameStep_refl] at hapart
    exact Bool.noConfusion hapart

variable [OrderedScalar K]

/-- After a parse, with its spans of one length in any order, the cells retained over the whole
sentence that have a root type are parted by their categories. If their scores are defined, each
part is described by its best cells, and the parts are ranked, those of equal scores in the order of
their first cells in the chart, where no cell is twice. -/
theorem ranked_partition {p : Parser K} {m : Model K} {tokens : List String}
    {options : ParseOptions} (ht : p.sentence m tokens options = .ok t)
    (hchart : (p.chart m tokens options).result = .ok chart ∨ t.Reaches chart)
    (hdefined : ∀ c ∈ chart.cellsOver ⟨0, tokens.length⟩,
      chart.isRootType c.category.type = true → Scalar.Defined c.score) :
    ∃ ds, Derivation.ofChart chart = .ok ds ∧
      Derivation.Parts ((chart.cellsOver ⟨0, tokens.length⟩).filter fun c =>
        chart.isRootType c.category.type) ds ∧
      (∀ d ∈ ds, d.Describes) ∧ Parse.Ranked (ds.map .derived) ∧
      (chart.cellsOver ⟨0, tokens.length⟩).Nodup ∧
      ∀ score, ((ds.filter fun d => Scalar.same d.score score).map Derivation.first).Sublist
        (chart.cellsOver ⟨0, tokens.length⟩) := by
  have hcomplete := Parser.complete_of_chart ht hchart
  obtain ⟨-, rfl⟩ := Parser.view_of_sentence ht
  obtain ⟨cs, ds, hcs, hds, hgroups, hsort⟩ := hcomplete.ofChart_eq
  rw [hcomplete.fullParses_eq_filter, hcomplete.filter_full, Except.ok.injEq] at hcs
  rw [hcs]
  have hcells : ∀ c ∈ cs, Scalar.Defined c.score := by
    rw [← hcs]
    intro c hc
    exact hdefined c (List.mem_filter.1 hc).1 (List.mem_filter.1 hc).2
  have hscores : ∀ d ∈ Derivation.group cs, Scalar.Defined d.score := by
    intro d hd
    obtain ⟨c, hc, hscore⟩ := score_mem d
    exact hscore ▸ hcells c (Derivation.mem_group_iff.2 ⟨d, hd, hc⟩)
  have hwithin : cs.Sublist (chart.cellsOver ⟨0, t.tokens.length⟩) := hcs ▸ List.filter_sublist
  have hnodup := hcomplete.nodup_cellsOver ⟨0, t.tokens.length⟩
  refine ⟨ds, hds, hgroups.parts (hnodup.sublist hwithin), ?_, ?_, hnodup, ?_⟩
  · intro d hd
    exact Derivation.describes fun c hc => hcells c (hgroups.mem_iff.2 ⟨d, hd, hc⟩)
  · rw [hsort]
    exact Parse.ranked_byScore hscores
  · intro score
    rw [hsort, filter_byScore hscores]
    have hfirst := (List.filter_sublist (p := fun d => Scalar.same d.score score)
      (l := Derivation.group cs)).map Derivation.first
    rw [Derivation.map_first_group] at hfirst
    exact (hfirst.trans (distinct_sublist _ cs)).trans hwithin

/-- Both retained cells of two tokens with one entry are in one derivation, and one of them is its
best cell. -/
theorem ranked_partition_weighed : ∃ chart ds,
    (keepParser.chart weighedModel ["a", "a"] .plain).result = .ok chart ∧
    Derivation.ofChart chart = .ok ds ∧
    ds.map (fun d => (d.score, d.cells.length, d.best.length)) = [(6, 2, 1)] ∧
    Derivation.Parts ((chart.cellsOver ⟨0, 2⟩).filter fun c =>
      chart.isRootType c.category.type) ds ∧
    (∀ d ∈ ds, d.Describes) ∧ Parse.Ranked (ds.map .derived) := by
  have hcheck : ((keepParser.chart weighedModel ["a", "a"] .plain).result.bind fun chart =>
      (Derivation.ofChart chart).map fun ds => ds.map fun d =>
        (d.score, d.cells.length, d.best.length)).toOption = some [(6, 2, 1)] := by decide +kernel
  cases hchart : (keepParser.chart weighedModel ["a", "a"] .plain).result with
  | error fault => simp [hchart, Except.bind, Except.toOption] at hcheck
  | ok chart =>
    obtain ⟨t, ht⟩ := Parser.exists_sentence hchart
    obtain ⟨ds, hds, hparts, hdescribes, hranked, -⟩ := ranked_partition ht (Or.inl hchart)
      fun c _ _ => defined_rat c.score
    simp only [hchart, hds, Except.bind, Except.map, Except.toOption, Option.some.injEq] at hcheck
    exact ⟨chart, ds, rfl, hds, hcheck, hparts, hdescribes, hranked⟩

end Sentence

end Categorial
