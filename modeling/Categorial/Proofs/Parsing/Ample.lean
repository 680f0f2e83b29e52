import Categorial.Proofs.Parsing.Completeness

/-!
Spans whose beams lose no cell, whatever the rules are. Such a span retains the first cell of every
step. Main statements: it retains the first ones of its entries, for every result of a
rule on retained cells a result of the same rule on the same cells, and so for every result on a
single cell.
-/

namespace Categorial

theorem List.eq_map_of_gather {α β γ : Type} {f : α → Except Fault (List β)} {read : β → γ}
    {g : α → γ} (h : ∀ x ys, f x = .ok ys → ys.map read = [g x]) {xs : List α} {ys : List β}
    (hys : gather f xs = .ok ys) : ys.map read = xs.map g := by
  induction xs generalizing ys with
  | nil =>
    obtain rfl := Except.ok.inj hys
    rfl
  | cons x xs ih =>
    obtain ⟨first, rest, hfirst, hrest, rfl⟩ := gather_cons_eq_ok.1 hys
    rw [List.map_append, h x first hfirst, ih hrest, List.map_cons, List.singleton_append]

namespace Sentence

variable {K : Type} [Scalar K] {t : Sentence K} {s : Span} {cs : List (Cell K)} {c : Cell K}

/-- The cell of an entry at a span with the score that the model gives to it. -/
def leafOf (t : Sentence K) (s : Span) (e : Entry) : Cell K :=
  t.leaf e s ((t.model.scoreEntry e).toOption.getD 0)

theorem leafOf_eq {e : Entry} {score : K} (h : t.model.scoreEntry e = .ok score) :
    t.leafOf s e = t.leaf e s score := by
  rw [leafOf, h]
  rfl

theorem sameStep_leafOf (a b : Entry) : (t.leafOf s a).sameStep (t.leafOf s b) = a.same b := by
  simp [leafOf, leaf, Cell.sameStep]

/-- The cells that are offered for the entries of a span. -/
theorem map_cell_offerEntries {os : List (Offer K)} {entries : List Entry}
    (hentries : t.entriesAt s = .ok entries) (h : t.offerEntries s = .ok os) :
    os.map Offer.cell = entries.map (t.leafOf s) := by
  rw [offerEntries_eq hentries, gather_map] at h
  refine List.eq_map_of_gather (fun e os hos => ?_) h
  obtain ⟨o, score, rfl, hscore, hcell, -⟩ := offerEntry_eq_ok hos
  rw [List.map_singleton, hcell, leafOf_eq hscore]

/-- What is offered after the entries has children. -/
theorem children_ne_nil_of_mem_rest {select : List (Offer K) → List (Cell K)}
    {cells : Span → Except Fault (List (Cell K))} {entries rest : List (Offer K)}
    (h : t.offerRest select cells s entries = .ok rest) {o : Offer K} (ho : o ∈ rest) :
    o.cell.children ≠ [] := by
  obtain ⟨pairs, shifted, hpairs, hshifted, rfl⟩ := offerRest_eq_ok h
  rcases List.mem_append.1 ho with ho | ho
  · obtain ⟨parts, -, os, hos, ho⟩ := mem_of_gather hpairs ho
    obtain ⟨_, _, l, r, os', -, -, -, -, hpair, ho⟩ := mem_offerParts hos ho
    obtain ⟨_, _, _, -, -, -, -, hcell, -⟩ := mem_offerPair hpair ho
    simp [hcell]
  · obtain ⟨c, -, os, hos, ho⟩ := mem_of_gather hshifted ho
    obtain ⟨_, _, _, -, -, -, hcell, -⟩ := mem_offerShift hos ho
    simp [hcell]

namespace Ample

/-- A span retains the first cell of every step, also before the last cells are offered. -/
theorem retained_perm (h : t.Ample) (hs : t.blank.hasSpan s = true) {front back : List (Offer K)}
    (hos : t.candidates t.retained s = .ok (front ++ back)) :
    (t.retained front).Perm (distinct Cell.sameStep (front.map Offer.cell)) := by
  exact Beam.cells_ofOffers_perm (Beam.size_eq_of_append (h.keeps s hs _ hos))

/-- What a span retains is retained of the first offers, or is a step that only the others have. -/
theorem mem_retained_append (h : t.Ample) (hs : t.blank.hasSpan s = true)
    {front back : List (Offer K)} (hos : t.candidates t.retained s = .ok (front ++ back)) :
    c ∈ t.retained (front ++ back) ↔ c ∈ t.retained front ∨
      c ∈ distinct Cell.sameStep (back.map Offer.cell) ∧
        ∀ o ∈ front, o.cell.sameStep c = false := by
  have hall : t.candidates t.retained s = .ok ((front ++ back) ++ []) := by
    rw [List.append_nil, hos]
  rw [(h.retained_perm hs hall).mem_iff, (h.retained_perm hs hos).mem_iff, List.map_append,
    mem_distinct_append Cell.sameStep_refl Cell.sameStep_trans, List.any_eq_false]
  simp

variable (h : t.Ample) (hs : t.blank.hasSpan s = true)

include h hs

theorem exists_cellsAt : ∃ cs, t.cellsAt t.retained s = .ok cs := by
  obtain ⟨os, hos⟩ := h.ends s hs
  exact ⟨t.retained os, by rw [cellsAt, hos]; rfl⟩

/-- The retained entries of a span are the first ones of its entries. -/
theorem mem_leaves (hcs : t.cellsAt t.retained s = .ok cs) {entries : List Entry}
    (hentries : t.entriesAt s = .ok entries) (hleaf : c.children = []) :
    c ∈ cs ↔ ∃ e ∈ distinct Entry.same entries, t.leafOf s e = c := by
  obtain ⟨os, hos⟩ := h.ends s hs
  rw [cellsAt, hos] at hcs
  obtain rfl := Except.ok.inj hcs
  obtain ⟨first, rest, hfirst, hrest, rfl⟩ := candidates_eq_ok hos
  have hcells := map_cell_offerEntries hentries hfirst
  rw [h.mem_retained_append hs hos, (h.retained_perm hs hos).mem_iff, hcells,
    distinct_map sameStep_leafOf, List.mem_map, or_iff_left]
  rintro ⟨hc, -⟩
  obtain ⟨o, ho, rfl⟩ := List.mem_map.1 (mem_of_mem_distinct hc)
  exact children_ne_nil_of_mem_rest hrest ho hleaf

/-- For every offered cell a candidate is retained that is the same step. -/
theorem exists_candidate {os : List (Offer K)} (hos : t.candidates t.retained s = .ok os)
    {o : Offer K} (ho : o ∈ os) :
    ∃ c ∈ t.retained os, t.Candidate t.retained s c ∧ c.sameStep o.cell = true := by
  have hall : t.candidates t.retained s = .ok (os ++ []) := by rw [List.append_nil, hos]
  obtain ⟨c, hc, hsame⟩ := exists_distinct Cell.sameStep_refl (List.mem_map_of_mem ho)
  obtain ⟨o', ho', rfl⟩ := List.mem_map.1 (mem_of_mem_distinct hc)
  exact ⟨o'.cell, (h.retained_perm hs hall).mem_iff.2 hc,
    (candidate_of_mem t.selects_retained hos ho').1, hsame⟩

/-- For a result of a rule on retained cells of two parts, one of the same rule on these cells is
retained. -/
theorem exists_pair {parts : Span × Span} (hparts : parts ∈ Parser.splits s)
    {lefts rights : List (Cell K)} (hlefts : t.cellsAt t.retained parts.1 = .ok lefts)
    (hrights : t.cellsAt t.retained parts.2 = .ok rights) {l r : Cell K} (hl : l ∈ lefts)
    (hr : r ∈ rights) {results : List RuleResult} {res : RuleResult}
    (hresults : (t.parser.grammar.applyBinary l.category r.category).result = .ok results)
    (hres : res ∈ results) (hcs : t.cellsAt t.retained s = .ok cs) :
    ∃ res' ∈ results, res'.rule = res.rule ∧ ∃ score, t.node [l, r] res' s score ∈ cs := by
  have hselect := t.selects_retained
  obtain ⟨os, hos⟩ := h.ends s hs
  rw [cellsAt, hos] at hcs
  obtain rfl := Except.ok.inj hcs
  obtain ⟨first, rest, -, hrest, rfl⟩ := candidates_eq_ok hos
  obtain ⟨pairs, shifted, hpairs, -, rfl⟩ := offerRest_eq_ok hrest
  obtain ⟨o, ho, score, -, hcell⟩ := exists_offer_pair hpairs hparts hlefts hrights hl hr hresults
    hres
  obtain ⟨c, hc, hcandidate, hsame⟩ := h.exists_candidate hs hos
    (List.mem_append_right _ (List.mem_append_left _ ho))
  rw [hcell] at hsame
  cases hcandidate with
  | entry => simp [leaf, node, Cell.sameStep] at hsame
  | pair _ hlefts' hrights' hl' hr' hresults' hres' =>
    obtain ⟨hrule, -, hnodes⟩ := Cell.parts_of_sameStep hsame (by simp)
    simp only [node_children, Cell.sameNodes, Bool.and_eq_true] at hnodes
    obtain rfl := eq_of_sameNode hselect hlefts' hlefts hl' hl hnodes.1
    obtain rfl := eq_of_sameNode hselect hrights' hrights hr' hr hnodes.2.1
    obtain rfl := Except.ok.inj (hresults.symm.trans hresults')
    exact ⟨_, hres', hrule, _, hc⟩
  | shift => simp [node, Cell.sameStep, Cell.sameNodes] at hsame

/-- For a result of a rule on a single retained cell that is no such result itself, one of the same
rule with an equal category is retained. -/
theorem exists_shift (hcs : t.cellsAt t.retained s = .ok cs) (hc : c ∈ cs)
    (hone : c.children.length ≠ 1) {results : List RuleResult} {res : RuleResult}
    (hresults : (t.parser.grammar.applyUnary c.category).result = .ok results)
    (hres : res ∈ results) : ∃ res' ∈ results, res'.rule = res.rule ∧
      res'.category.same res.category = true ∧ ∃ score, t.node [c] res' s score ∈ cs := by
  have hselect := t.selects_retained
  obtain ⟨os, hos⟩ := h.ends s hs
  rw [cellsAt, hos] at hcs
  obtain rfl := Except.ok.inj hcs
  obtain ⟨first, rest, hfirst, hrest, rfl⟩ := candidates_eq_ok hos
  obtain ⟨pairs, shifted, hpairs, hshifted, rfl⟩ := offerRest_eq_ok hrest
  rw [← List.append_assoc] at hos hc ⊢
  -- the cell was retained when the rules for one category were applied
  have hbefore : c ∈ t.retained (first ++ pairs) := by
    refine ((h.mem_retained_append hs hos).1 hc).resolve_right ?_
    rintro ⟨hlast, -⟩
    obtain ⟨o, ho, rfl⟩ := List.mem_map.1 (mem_of_mem_distinct hlast)
    obtain ⟨d, -, os, hos, ho⟩ := mem_of_gather hshifted ho
    obtain ⟨_, _, _, -, -, -, hcell, -⟩ := mem_offerShift hos ho
    simp [hcell] at hone
  obtain ⟨o, ho, score, -, hcell⟩ := exists_offer_shift hshifted hbefore hresults hres
  obtain ⟨d, hd, hcandidate, hsame⟩ := h.exists_candidate hs hos (List.mem_append_right _ ho)
  rw [hcell] at hsame
  cases hcandidate with
  | entry => simp [leaf, node, Cell.sameStep] at hsame
  | pair => simp [node, Cell.sameStep, Cell.sameNodes] at hsame
  | shift hfirst' hpairs' hc' _ hresults' hres' =>
    obtain rfl := Except.ok.inj (hfirst.symm.trans hfirst')
    obtain rfl := Except.ok.inj (hpairs.symm.trans hpairs')
    obtain ⟨hrule, hcategory, hnodes⟩ := Cell.parts_of_sameStep hsame (by simp)
    simp only [node_children, Cell.sameNodes, Bool.and_eq_true] at hnodes
    obtain rfl := hselect.eq_of_sameStep hc' hbefore (Cell.sameStep_of_sameNode hnodes.1)
    obtain rfl := Except.ok.inj (hresults.symm.trans hresults')
    exact ⟨_, hres', hrule, hcategory, _, hd⟩

end Ample

end Sentence

namespace Parser

variable {K : Type} [Scalar K]

/-- Parses of fixed inputs whose beams lost no cell can be computed. -/
theorem exists_chart (p : Parser K) (m : Model K) (tokens : List String) (options : ParseOptions)
    (check : Chart K → Bool)
    (hcheck : ((p.chart m tokens options).result.toOption.any fun chart =>
      chart.keepsAll && check chart) = true) :
    ∃ t chart, p.sentence m tokens options = .ok t ∧
      (p.chart m tokens options).result = .ok chart ∧ chart.keepsAll = true ∧
        check chart = true := by
  cases hchart : (p.chart m tokens options).result with
  | error fault => simp [hchart, Except.toOption] at hcheck
  | ok chart =>
    obtain ⟨t, ht⟩ := exists_sentence hchart
    rw [hchart, Except.toOption, Option.any_some, Bool.and_eq_true] at hcheck
    exact ⟨t, chart, ht, rfl, hcheck.1, hcheck.2⟩

end Parser

end Categorial
