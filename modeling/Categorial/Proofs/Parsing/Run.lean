import Categorial.Proofs.Parsing.Offers

/-!
The parser, run on a sentence. A step of a run fails, or it offers cells to the spans that they are
at; what it offers depends on the chart only through the cells of the spans that it reads. Main
statements: beams choose offered cells and no step twice, and filling a span that holds its entries
offers it what the cells of the shorter spans give, and then what the cells found so far give.
-/

namespace Categorial

namespace Sentence

variable {K : Type} (t : Sentence K)

/-- What holds of the chart of a sentence at any time of a run. -/
structure Frames (chart : Chart K) : Prop where
  size : chart.size = t.blank.size
  beamSize : chart.beamSize = t.blank.beamSize
  root : chart.root = t.blank.root
  /-- Cells are in the beams of their spans. -/
  span : ∀ s, ∀ c ∈ (chart.beamAt s).cells, c.span = s

variable {t} {chart : Chart K}

theorem frames_blank : t.Frames t.blank := by
  refine ⟨rfl, rfl, rfl, fun s c hc => ?_⟩
  rw [Chart.beamAt, t.beams_blank] at hc
  exact absurd hc List.not_mem_nil

theorem Frames.hasSpan (h : t.Frames chart) (s : Span) : chart.hasSpan s = t.blank.hasSpan s := by
  rw [Chart.hasSpan, Chart.hasSpan, h.size]

theorem Frames.isFullParse (h : t.Frames chart) (s : Span) (c : Category) :
    chart.isFullParse s c = t.blank.isFullParse s c := by
  rw [Chart.isFullParse, Chart.isFullParse, Chart.isFullSpan, Chart.isFullSpan, h.size]
  rw [Chart.isRootType, Chart.isRootType, h.root]

theorem Frames.span_of_cells (h : t.Frames chart) {part : Span} {cs : List (Cell K)}
    (hcs : chart.cells part = .ok cs) {c : Cell K} (hc : c ∈ cs) : c.span = part := by
  rw [Chart.cells_eq (Chart.hasSpan_of_cells hcs), Except.ok.injEq] at hcs
  exact h.span part c (hcs ▸ hc)

variable [Scalar K]

theorem Frames.push (h : t.Frames chart) (o : Offer K) : t.Frames (chart.push o) := by
  refine ⟨h.size, h.beamSize, h.root, fun s c hc => ?_⟩
  rw [Chart.beamAt_push] at hc
  split at hc
  · rename_i hs
    rw [← Beam.map_cell_offers] at hc
    obtain ⟨a, ha, rfl⟩ := List.mem_map.1 hc
    rcases Beam.mem_offers_push ha with rfl | ha
    · exact hs
    · exact h.span s _ (Beam.map_cell_offers _ ▸ List.mem_map_of_mem ha)
  · exact h.span s c hc

theorem Frames.pushAll (h : t.Frames chart) (os : List (Offer K)) :
    t.Frames (chart.pushAll os) := by
  induction os generalizing chart with
  | nil => exact h
  | cons o os ih => exact ih (h.push o)

/-- Inserting a cell is an offer and what the chart makes of it. -/
theorem Frames.result_insert (h : t.Frames chart) (c : Cell K) :
    (chart.insert c (t.parser.ranking.rank c)).result.bind (fun inserted => .ok inserted.2) =
      (t.offerCell (.ok c)).map chart.pushAll := by
  have hoffer := Chart.offer_congr h.size c (t.parser.ranking.rank c)
  simp only [offerCell, bind, Except.bind, Chart.result_insert, hoffer]
  cases t.blank.offer c (t.parser.ranking.rank c) <;> rfl

theorem offerCell_bind {α : Type} (x : Except Fault α) (f : α → Except Fault (Cell K)) :
    t.offerCell (x >>= f) = x >>= fun a => t.offerCell (f a) := by
  cases x <;> rfl

theorem map_bind {α β γ : Type} (x : Except Fault α) (f : α → Except Fault β) (g : β → γ) :
    (x >>= f).map g = x.bind fun a => (f a).map g := by
  cases x <;> rfl

theorem Frames.result_offerEntry (h : t.Frames chart) (placed : Entry × Span) :
    (t.parser.offerEntry t.model chart placed).result =
      (t.offerEntry placed).map chart.pushAll := by
  rw [offerEntry, offerCell_bind, map_bind, Parser.offerEntry]
  simp only [Traced.result_bind, Traced.result_ofExcept, Traced.result_pure, h.isFullParse]
  congr 1
  funext score
  cases Cell.ofEntry placed.1 placed.2 score (t.blank.isFullParse placed.2 placed.1.category) 0 with
  | error fault => rfl
  | ok c => exact h.result_insert c

theorem Frames.result_offerResult (h : t.Frames chart) (children : List (Cell K)) (r : RuleResult) :
    (t.parser.offerResult t.model children chart r).result =
      (t.offerResult children r).map chart.pushAll := by
  simp only [offerResult, scoreNode, bind_assoc, offerCell_bind, map_bind, List.map_map,
    Parser.offerResult, Traced.result_bind, Traced.result_ofExcept, Traced.result_pure,
    h.isFullParse]
  congr 1
  funext childScore
  congr 1
  funext ruleScore
  congr 1
  funext score
  congr 1
  funext s
  cases Cell.ofChildren r.category r.rule children score (t.blank.isFullParse s r.category) 0 with
  | error fault => rfl
  | ok c => exact h.result_insert c

/-- Steps that each offer something, whatever the chart is by then, offer it one after the other. -/
theorem result_foldlM {α : Type} {P : Chart K → Prop} {f : Chart K → α → Traced (Chart K)}
    {g : α → Except Fault (List (Offer K))} {xs : List α}
    (hstep : ∀ chart, P chart → ∀ x ∈ xs, (f chart x).result = (g x).map chart.pushAll)
    (hpush : ∀ chart, P chart → ∀ x ∈ xs, ∀ os, g x = .ok os → P (chart.pushAll os))
    {chart : Chart K} (h : P chart) :
    (xs.foldlM f chart).result = (gather g xs).map chart.pushAll := by
  induction xs generalizing chart with
  | nil => rfl
  | cons x xs ih =>
    rw [List.foldlM_cons, Traced.result_bind, hstep chart h x List.mem_cons_self, gather_cons]
    cases hx : g x with
    | error fault => rfl
    | ok os =>
      have hrest := ih (fun c hc y hy => hstep c hc y (List.mem_cons_of_mem x hy))
        (fun c hc y hy => hpush c hc y (List.mem_cons_of_mem x hy))
        (hpush chart h x List.mem_cons_self os hx)
      simp only [Except.map, Except.bind, hrest]
      cases gather g xs with
      | error fault => rfl
      | ok rest => exact congrArg Except.ok (Chart.pushAll_append chart os rest).symm

theorem Frames.result_combine (h : t.Frames chart) (pair : Cell K × Cell K) :
    (t.parser.combine t.model chart pair).result = (t.offerPair pair).map chart.pushAll := by
  rw [Parser.combine, offerPair, Traced.result_bind, map_bind]
  congr 1
  funext results
  exact result_foldlM (fun _ h r _ => h.result_offerResult _ r) (fun _ h _ _ os _ => h.pushAll os) h

theorem Frames.result_shift (h : t.Frames chart) (c : Cell K) :
    (t.parser.shift t.model chart c).result = (t.offerShift c).map chart.pushAll := by
  rw [Parser.shift, offerShift, Traced.result_bind, map_bind]
  congr 1
  funext results
  exact result_foldlM (fun _ h r _ => h.result_offerResult _ r) (fun _ h _ _ os _ => h.pushAll os) h

theorem Frames.result_combineSpans (h : t.Frames chart) (parts : Span × Span) :
    (t.parser.combineSpans t.model chart parts).result =
      (t.offerParts chart.cells parts).map chart.pushAll := by
  rw [Parser.combineSpans, offerParts, Traced.result_bind, map_bind, Traced.result_ofExcept]
  congr 1
  funext lefts
  rw [Traced.result_bind, map_bind, Traced.result_ofExcept]
  congr 1
  funext rights
  exact result_foldlM (fun _ h pair _ => h.result_combine pair) (fun _ h _ _ os _ => h.pushAll os) h

/-- The cells that a beam retains of some offers. -/
def retained (t : Sentence K) (os : List (Offer K)) : List (Cell K) :=
  (Beam.ofOffers t.blank.beamSize os).cells

/-- Beams choose offered cells and no step twice, whatever the scores are. -/
theorem selects_retained (t : Sentence K) : Selects t.retained where
  subset os c hc := by
    rw [retained, ← Beam.map_cell_offers] at hc
    obtain ⟨o, ho, hcell⟩ := List.mem_map.1 hc
    exact ⟨o, Beam.mem_of_mem_ofOffers ho, hcell⟩
  apart os := (Beam.sound_ofOffers t.blank.beamSize os).apart

theorem pushAll_beamAt_self (h : t.Frames chart) {s : Span} {os os' : List (Offer K)}
    (hbeam : chart.beamAt s = Beam.ofOffers t.blank.beamSize os)
    (hos' : ∀ o ∈ os', o.cell.span = s) :
    (chart.pushAll os').beamAt s = Beam.ofOffers t.blank.beamSize (os ++ os') := by
  have hfilter : os'.filter (fun o => o.cell.span = s) = os' :=
    List.filter_eq_self.2 fun o ho => by simpa using hos' o ho
  rw [Chart.beamAt_pushAll, hfilter, hbeam, h.beamSize, Beam.ofOffers, Beam.ofOffers,
    List.foldl_append]

theorem pushAll_beamAt_of_ne (chart : Chart K) {s part : Span} {os : List (Offer K)}
    (hos : ∀ o ∈ os, o.cell.span = s) (hpart : part ≠ s) :
    (chart.pushAll os).beamAt part = chart.beamAt part := by
  have hfilter : os.filter (fun o => o.cell.span = part) = [] := by
    refine List.filter_eq_nil_iff.2 ?_
    intro o ho
    rw [hos o ho]
    simpa using hpart.symm
  rw [Chart.beamAt_pushAll, hfilter, List.foldl_nil]

/-- Combining the cells of the parts of a span offers the same as if the cells of the parts were
read before. -/
theorem Frames.result_foldlM_combineSpans (h : t.Frames chart) (s : Span) :
    ((Parser.splits s).foldlM (t.parser.combineSpans t.model) chart).result =
      (gather (t.offerParts chart.cells) (Parser.splits s)).map chart.pushAll := by
  -- while the parts are combined, only the beam of the span itself changes
  refine result_foldlM (P := fun c => t.Frames c ∧ ∀ part, part ≠ s →
    c.beamAt part = chart.beamAt part) ?_ ?_ ⟨h, fun _ _ => rfl⟩
  · rintro c ⟨hc, hbeams⟩ parts hparts
    have hcells : ∀ part : Span, part.length < s.length → c.cells part = chart.cells part := by
      intro part hlt
      have hne : part ≠ s := fun heq => absurd hlt (by rw [heq]; exact Nat.lt_irrefl _)
      rw [Chart.cells, Chart.cells, Chart.beam, Chart.beam, hc.hasSpan, h.hasSpan, hc.size, h.size]
      have hbeam := hbeams part hne
      rw [Chart.beamAt, Chart.beamAt] at hbeam
      rw [hbeam]
    obtain ⟨hleft, hright⟩ := Parser.length_lt_of_mem_splits hparts
    rw [hc.result_combineSpans, offerParts, offerParts, hcells _ hleft, hcells _ hright]
  · rintro c ⟨hc, hbeams⟩ parts hparts os hos
    refine ⟨hc.pushAll os, fun part hpart => ?_⟩
    have hspan : ∀ o ∈ os, o.cell.span = s := fun o ho =>
      span_of_mem_offerParts hparts (fun _ _ _ hcs _ hc => h.span_of_cells hcs hc) hos ho
    rw [pushAll_beamAt_of_ne c hspan hpart, hbeams part hpart]

/-- Filling a span that holds its entries offers what there is to offer besides them. -/
theorem Frames.result_fillSpan (h : t.Frames chart) {s : Span} (hs : t.blank.hasSpan s = true)
    {entries : List (Offer K)} (hbeam : chart.beamAt s = Beam.ofOffers t.blank.beamSize entries) :
    (t.parser.fillSpan t.model chart s).result =
      (t.offerRest t.retained chart.cells s entries).map chart.pushAll := by
  rw [Parser.fillSpan, offerRest, Traced.result_bind, h.result_foldlM_combineSpans, map_bind]
  cases hpairs : gather (t.offerParts chart.cells) (Parser.splits s) with
  | error fault => rfl
  | ok pairs =>
    have hspan : ∀ o ∈ pairs, o.cell.span = s := by
      intro o ho
      obtain ⟨parts, hparts, os, hos, ho⟩ := mem_of_gather hpairs ho
      exact span_of_mem_offerParts hparts (fun _ _ _ hcs _ hc => h.span_of_cells hcs hc) hos ho
    have hframes := h.pushAll pairs
    have hcells : (chart.pushAll pairs).cells s = .ok (t.retained (entries ++ pairs)) := by
      rw [Chart.cells_eq ((hframes.hasSpan s).trans hs), pushAll_beamAt_self h hbeam hspan,
        retained]
    have hshift : ((t.retained (entries ++ pairs)).foldlM (t.parser.shift t.model)
        (chart.pushAll pairs)).result = (gather t.offerShift (t.retained (entries ++ pairs))).map
          (chart.pushAll pairs).pushAll :=
      result_foldlM (P := t.Frames) (fun _ h c _ => h.result_shift c)
        (fun _ h _ _ os _ => h.pushAll os) hframes
    simp only [Except.map, Except.bind, Traced.result_bind, Traced.result_ofExcept, hcells, hshift]
    cases hshifted : gather t.offerShift (t.retained (entries ++ pairs)) with
    | error fault => simp [bind, Except.bind]
    | ok shifted =>
      simp [bind, Except.bind, pure, Except.pure, Chart.pushAll_append]

end Sentence

end Categorial
