import Categorial.Proofs.Parsing.Entries

/-!
Orders in which the spans of a sentence are filled: each span once, and the shorter ones first.
While a run goes on, the spans that are filled hold what their candidates make, and the others what
their entries make. Main statement: whatever the order of the spans of one length is, a run ends
just if every span has its candidates, and then the beam of every span is what they make; a fault of
it is the one of finding the candidates of a span.
-/

namespace Categorial

namespace Sentence

variable {K : Type} {t : Sentence K}

/-- An order in which every span of a sentence is filled once, and the shorter ones first. -/
structure Schedule (t : Sentence K) (order : List Span) : Prop where
  perm : order.Perm t.blank.spans
  sorted : order.Pairwise fun s s' => s.length ≤ s'.length

theorem mem_spans {s : Span} : s ∈ t.blank.spans ↔ t.blank.hasSpan s = true := by
  rw [hasSpan_iff, Chart.spans, t.size_blank, Int.toNat_natCast, List.mem_flatMap]
  constructor
  · rintro ⟨n, hn, hs⟩
    obtain ⟨i, hi, rfl⟩ := List.mem_map.1 hs
    rw [List.mem_range] at hn hi
    dsimp only
    omega
  · rintro ⟨hstart, hlt, hstop⟩
    obtain ⟨start, stop⟩ := s
    dsimp only at *
    refine ⟨(stop - start - 1).toNat, List.mem_range.2 (by omega), List.mem_map.2
      ⟨start.toNat, List.mem_range.2 (by omega), ?_⟩⟩
    simp only [Span.mk.injEq]
    omega

theorem length_of_mem_spans {n : Nat} {xs : List Nat} {s : Span}
    (h : s ∈ xs.map fun (i : Nat) => (⟨i, i + n + 1⟩ : Span)) : s.length = n + 1 := by
  obtain ⟨i, -, rfl⟩ := List.mem_map.1 h
  rw [Span.length]
  dsimp only
  omega

/-- The order of the parser itself: spans of one length from left to right. -/
theorem schedule_spans : t.Schedule t.blank.spans := by
  refine ⟨.refl _, ?_⟩
  rw [Chart.spans, List.pairwise_flatMap]
  refine ⟨fun n _ => List.pairwise_of_forall_mem_list fun s hs s' hs' => ?_,
    List.pairwise_lt_range.imp fun {n n'} hlt s hs s' hs' => ?_⟩
  · exact Nat.le_of_eq ((length_of_mem_spans hs).trans (length_of_mem_spans hs').symm)
  · rw [length_of_mem_spans hs, length_of_mem_spans hs']
    omega

theorem nodup_spans : t.blank.spans.Nodup := by
  rw [Chart.spans, List.nodup_flatMap]
  refine ⟨fun n _ => List.nodup_range.map fun i i' heq => ?_,
    List.nodup_range.imp fun {n n'} hne => ?_⟩
  · have hstart := congrArg Span.start heq
    dsimp only at hstart
    omega
  · refine List.disjoint_left.2 ?_
    intro s hs hs'
    have hlength := (length_of_mem_spans hs).symm.trans (length_of_mem_spans hs')
    exact hne (Nat.succ.inj hlength)

variable [Scalar K]

/-- The chart of a sentence, if its spans are filled in some order. -/
def run (t : Sentence K) (order : List Span) : Except Fault (Chart K) :=
  t.entered.bind fun chart => (t.parser.fill t.model order chart).result

/-- What holds while the spans of a sentence are filled. -/
structure Filled (t : Sentence K) (spans : List Span) (chart : Chart K) : Prop where
  frames : t.Frames chart
  done : ∀ s ∈ spans, ∃ os, t.candidates t.retained s = .ok os ∧
    chart.beamAt s = Beam.ofOffers t.blank.beamSize os
  waiting : ∀ s, t.blank.hasSpan s = true → s ∉ spans → ∃ os, t.offerEntries s = .ok os ∧
    chart.beamAt s = Beam.ofOffers t.blank.beamSize os

/-- When the shorter spans are filled, what is offered to a span after its entries is what the
recursion says. -/
theorem Filled.offerRest_eq {spans : List Span} {chart : Chart K} (h : t.Filled spans chart)
    {s : Span}
    (hshorter : ∀ part, t.blank.hasSpan part = true → part.length < s.length → part ∈ spans)
    (hs : t.blank.hasSpan s = true) (entries : List (Offer K)) :
    t.offerRest t.retained chart.cells s entries =
      t.offerRest t.retained (t.cellsAt t.retained) s entries := by
  have hcells : ∀ part, t.blank.hasSpan part = true → part.length < s.length →
      chart.cells part = t.cellsAt t.retained part := by
    intro part hpart hlt
    obtain ⟨os, hos, hbeam⟩ := h.done part (hshorter part hpart hlt)
    rw [Chart.cells_eq ((h.frames.hasSpan part).trans hpart), hbeam, cellsAt, hos]
    rfl
  refine t.offerRest_congr (fun parts hparts => ?_) entries
  obtain ⟨hleft, hright⟩ := Parser.length_lt_of_mem_splits hparts
  have heq := Parser.splits_eq hparts
  rw [hasSpan_iff] at hs
  exact ⟨hcells _ (hasSpan_iff.2 (by omega)) hleft, hcells _ (hasSpan_iff.2 (by omega)) hright⟩

/-- A span that is filled holds what its candidates make, and a fault of filling it is the one of
finding them. -/
theorem Filled.fillSpan {spans : List Span} {chart : Chart K} (h : t.Filled spans chart) {s : Span}
    (hshorter : ∀ part, t.blank.hasSpan part = true → part.length < s.length → part ∈ spans)
    (hs : t.blank.hasSpan s = true) (hnew : s ∉ spans) :
    (∀ chart', (t.parser.fillSpan t.model chart s).result = .ok chart' →
      t.Filled (s :: spans) chart') ∧
    (∀ fault, (t.parser.fillSpan t.model chart s).result = .error fault →
      t.candidates t.retained s = .error fault) := by
  obtain ⟨entries, hentries, hbeam⟩ := h.waiting s hs hnew
  have hresult := h.frames.result_fillSpan hs hbeam
  have hspan : ∀ rest, t.offerRest t.retained (t.cellsAt t.retained) s entries = .ok rest →
      ∀ o ∈ rest, o.cell.span = s := by
    intro rest hrest
    rw [← h.offerRest_eq hshorter hs] at hrest
    exact span_of_mem_offerRest t.selects_retained
      (fun _ _ _ hcs _ hc => h.frames.span_of_cells hcs hc)
      (fun o ho => span_of_mem_offerEntries hentries ho) hrest
  rw [h.offerRest_eq hshorter hs] at hresult
  have hcandidates : t.candidates t.retained s =
      (t.offerRest t.retained (t.cellsAt t.retained) s entries).map (entries ++ ·) := by
    rw [candidates_eq, hentries]
    rfl
  cases hrest : t.offerRest t.retained (t.cellsAt t.retained) s entries with
  | error fault =>
    rw [hrest] at hresult hcandidates
    simp [hresult, hcandidates, Except.map]
  | ok rest =>
    rw [hrest] at hresult hcandidates
    refine ⟨fun chart' hchart' => ?_, fun fault hfault => by simp [hresult, Except.map] at hfault⟩
    rw [hresult, Except.map, Except.ok.injEq] at hchart'
    subst hchart'
    have hspan := hspan rest hrest
    refine ⟨h.frames.pushAll rest, ?_, ?_⟩
    · intro part hpart
      rcases List.mem_cons.1 hpart with rfl | hpart
      · exact ⟨entries ++ rest, hcandidates, pushAll_beamAt_self h.frames hbeam hspan⟩
      · have hne : part ≠ s := fun heq => hnew (heq ▸ hpart)
        rw [pushAll_beamAt_of_ne chart hspan hne]
        exact h.done part hpart
    · intro part hpart hout
      rw [List.mem_cons, not_or] at hout
      rw [pushAll_beamAt_of_ne chart hspan hout.1]
      exact h.waiting part hpart hout.2

/-- What holds of the chart of a sentence after a run. -/
structure Complete (t : Sentence K) (chart : Chart K) : Prop where
  frames : t.Frames chart
  done : ∀ s, t.blank.hasSpan s = true → ∃ os, t.candidates t.retained s = .ok os ∧
    chart.beamAt s = Beam.ofOffers t.blank.beamSize os

/-- When the spans that are left are filled, the shorter ones first, the chart is complete, and a
fault of filling them is the one of finding the candidates of such a span. -/
theorem Filled.fill {spans order : List Span} {chart : Chart K} (h : t.Filled spans chart)
    (hsorted : order.Pairwise fun s s' => s.length ≤ s'.length) (hnodup : (spans ++ order).Nodup)
    (hall : ∀ s, t.blank.hasSpan s = true ↔ s ∈ spans ++ order) :
    (∀ chart', (t.parser.fill t.model order chart).result = .ok chart' → t.Complete chart') ∧
    (∀ fault, (t.parser.fill t.model order chart).result = .error fault →
      ∃ s ∈ order, t.candidates t.retained s = .error fault) := by
  induction order generalizing spans chart with
  | nil =>
    refine ⟨fun chart' hchart' => ?_, fun fault hfault => by cases hfault⟩
    obtain rfl := Except.ok.inj hchart'
    exact ⟨h.frames, fun s hs => h.done s (by simpa using (hall s).1 hs)⟩
  | cons s order ih =>
    obtain ⟨hfirst, hsorted⟩ := List.pairwise_cons.1 hsorted
    have hmoved : (s :: spans ++ order).Perm (spans ++ s :: order) := List.perm_middle.symm
    have hnew : s ∉ spans := fun hs =>
      (List.nodup_append.1 hnodup).2.2 s hs s List.mem_cons_self rfl
    have hs : t.blank.hasSpan s = true := (hall s).2 (by simp)
    have hshorter : ∀ part, t.blank.hasSpan part = true → part.length < s.length →
        part ∈ spans := by
      intro part hpart hlt
      have hmem := (hall part).1 hpart
      rw [List.mem_append, List.mem_cons] at hmem
      rcases hmem with hmem | rfl | hmem
      · exact hmem
      · exact absurd hlt (Nat.lt_irrefl _)
      · exact absurd (hfirst part hmem) (by omega)
    obtain ⟨hfilled, herror⟩ := h.fillSpan hshorter hs hnew
    have hnext {chart' : Chart K} (hchart' : t.Filled (s :: spans) chart') := ih hchart' hsorted
      (hmoved.nodup_iff.2 hnodup) fun part => (hall part).trans hmoved.mem_iff.symm
    rw [Parser.fill, List.foldlM_cons, Traced.result_bind]
    cases hresult : (t.parser.fillSpan t.model chart s).result with
    | error fault =>
      refine ⟨fun chart' hchart' => by simp [Except.bind] at hchart', fun fault' hfault => ?_⟩
      obtain rfl := Except.error.inj hfault
      exact ⟨s, List.mem_cons_self, herror fault hresult⟩
    | ok filled =>
      obtain ⟨hcomplete, hrest⟩ := hnext (hfilled filled hresult)
      refine ⟨hcomplete, fun fault hfault => ?_⟩
      obtain ⟨part, hpart, herror⟩ := hrest fault hfault
      exact ⟨part, List.mem_cons_of_mem s hpart, herror⟩

/-- Filling the spans of a chart that holds its entries. -/
theorem Schedule.filled {order : List Span} (horder : t.Schedule order) {chart : Chart K}
    (h : t.entered = .ok chart) :
    (∀ chart', (t.parser.fill t.model order chart).result = .ok chart' → t.Complete chart') ∧
    (∀ fault, (t.parser.fill t.model order chart).result = .error fault →
      ∃ s ∈ order, t.candidates t.retained s = .error fault) := by
  obtain ⟨hframes, hbeams⟩ := beamAt_entered h
  have hfilled : t.Filled [] chart :=
    ⟨hframes, fun s hs => absurd hs List.not_mem_nil, fun s hs _ => hbeams s hs⟩
  exact hfilled.fill horder.sorted (horder.perm.nodup_iff.2 nodup_spans)
    fun s => mem_spans.symm.trans horder.perm.mem_iff.symm

/-- Whatever the order of the spans of one length is, a run ends with a complete chart. -/
theorem complete_run {order : List Span} (horder : t.Schedule order) {chart : Chart K}
    (h : t.run order = .ok chart) : t.Complete chart := by
  rw [run] at h
  cases hentered : t.entered with
  | error fault => simp [hentered, Except.bind] at h
  | ok entered =>
    rw [hentered] at h
    exact (horder.filled hentered).1 chart h

/-- The charts of runs that fill the spans of one length in any order. -/
def Reaches (t : Sentence K) (chart : Chart K) : Prop :=
  ∃ order, t.Schedule order ∧ t.run order = .ok chart

theorem Reaches.complete {chart : Chart K} (h : t.Reaches chart) : t.Complete chart := by
  obtain ⟨order, horder, hrun⟩ := h
  exact complete_run horder hrun

/-- The cells of a complete chart. -/
theorem Complete.cells_eq {chart : Chart K} (h : t.Complete chart) {s : Span}
    (hs : t.blank.hasSpan s = true) : chart.cells s = t.cellsAt t.retained s := by
  obtain ⟨os, hos, hbeam⟩ := h.done s hs
  rw [Chart.cells_eq ((h.frames.hasSpan s).trans hs), hbeam, cellsAt, hos]
  rfl

theorem Complete.hasSpan_of_cells {chart : Chart K} (h : t.Complete chart) {s : Span}
    {cs : List (Cell K)} (hcs : chart.cells s = .ok cs) : t.blank.hasSpan s = true := by
  rw [← h.frames.hasSpan s]
  exact Chart.hasSpan_of_cells hcs

/-- What a span of a complete chart holds is retained of its candidates. -/
theorem Complete.cellsAt_eq {chart : Chart K} (h : t.Complete chart) {s : Span}
    {cs : List (Cell K)} (hcs : chart.cells s = .ok cs) : t.cellsAt t.retained s = .ok cs := by
  rw [← h.cells_eq (h.hasSpan_of_cells hcs), hcs]

/-- If the entries of every span can be offered, a fault of a run is the one of finding the
candidates of a span. -/
theorem exists_of_run_error {order : List Span} (horder : t.Schedule order)
    (hentries : ∀ s, t.blank.hasSpan s = true → ∃ os, t.offerEntries s = .ok os) {fault : Fault}
    (h : t.run order = .error fault) :
    ∃ s, t.blank.hasSpan s = true ∧ t.candidates t.retained s = .error fault := by
  obtain ⟨chart, hchart⟩ := exists_entered hentries
  rw [run, hchart] at h
  obtain ⟨s, hs, hfault⟩ := (horder.filled hchart).2 fault h
  exact ⟨s, mem_spans.1 (horder.perm.mem_iff.1 hs), hfault⟩

/-- If the candidates of every span can be found, a run ends. -/
theorem exists_run {order : List Span} (horder : t.Schedule order)
    (h : ∀ s, t.blank.hasSpan s = true → ∃ os, t.candidates t.retained s = .ok os) :
    ∃ chart, t.run order = .ok chart := by
  have hentries : ∀ s, t.blank.hasSpan s = true → ∃ os, t.offerEntries s = .ok os := by
    intro s hs
    obtain ⟨os, hos⟩ := h s hs
    rw [candidates_eq] at hos
    obtain ⟨entries, hentries, -⟩ := bind_eq_ok.1 hos
    exact ⟨entries, hentries⟩
  by_contra hnot
  obtain ⟨fault, hfault⟩ := exists_error_iff.2 hnot
  obtain ⟨s, hs, hcandidates⟩ := exists_of_run_error horder hentries hfault
  obtain ⟨os, hos⟩ := h s hs
  rw [hcandidates] at hos
  cases hos

end Sentence

namespace Parser

variable {K : Type} {p : Parser K} {m : Model K} {tokens : List String} {options : ParseOptions}
  {t : Sentence K}

/-- The sentence of a parse. -/
def sentence (p : Parser K) (m : Model K) (tokens : List String) (options : ParseOptions) :
    Except Fault (Sentence K) :=
  let room := options.beamSize.getD p.config.beamSize
  if h : room.isAtMostZero then .error (.beamSize room.text)
  else .ok ⟨p, m, lexicon m options.extra, tokens,
    ⟨tokens.length, room, by simpa using h, p.config.root, []⟩, rfl, rfl⟩

theorem parts_of_sentence (ht : p.sentence m tokens options = .ok t) :
    t.parser = p ∧ t.model = m ∧ t.blank.root = p.config.root ∧
      t.blank.beamSize = options.beamSize.getD p.config.beamSize := by
  rw [sentence] at ht
  split at ht
  · simp at ht
  · rw [← Except.ok.inj ht]
    exact ⟨rfl, rfl, rfl, rfl⟩

theorem view_of_sentence (ht : p.sentence m tokens options = .ok t) :
    t.view = lexicon m options.extra ∧ t.tokens = tokens := by
  rw [sentence] at ht
  split at ht
  · simp at ht
  · rw [← Except.ok.inj ht]
    exact ⟨rfl, rfl⟩

variable [Scalar K]

/-- A parse is a run on its sentence, and a report after it if there is one. -/
theorem result_chart (ht : p.sentence m tokens options = .ok t) :
    (p.chart m tokens options).result = (t.run t.blank.spans).bind fun chart =>
      if p.reports then
        (chart.summary true).bind fun _ => (chart.summary false).bind fun _ => .ok chart
      else .ok chart := by
  obtain ⟨hparser, hmodel, -⟩ := parts_of_sentence ht
  rw [sentence] at ht
  split at ht
  · simp at ht
  · rename_i hroom
    have ht := Except.ok.inj ht
    have hblank : Chart.create tokens.length (options.beamSize.getD p.config.beamSize)
        p.config.root = .ok t.blank := by
      rw [Chart.create, dif_neg hroom, ← ht]
    have hentered :
        (p.addEntries m (lexicon m options.extra) tokens t.blank).result = t.entered := by
      rw [← ht]
      rfl
    simp only [Parser.chart, Traced.result_bind, Traced.result_ofExcept, hblank, Except.bind,
      hentered, Sentence.run]
    cases hchart : t.entered with
    | error fault => rfl
    | ok chart =>
      -- placing the entries leaves the spans of the chart as they are
      have hspans : chart.spans = t.blank.spans := by
        rw [Chart.spans, Chart.spans, (Sentence.beamAt_entered hchart).1.size]
      simp only [hspans, hparser, hmodel]
      cases (p.fill m t.blank.spans chart).result with
      | error fault => rfl
      | ok chart =>
        dsimp only
        split
        · cases chart.summary true with
          | error fault => rfl
          | ok text => cases chart.summary false <;> rfl
        · rfl

/-- The chart of a parse is that of a run on its sentence. -/
theorem run_of_chart (ht : p.sentence m tokens options = .ok t) {chart : Chart K}
    (h : (p.chart m tokens options).result = .ok chart) : t.run t.blank.spans = .ok chart := by
  rw [result_chart ht] at h
  cases hrun : t.run t.blank.spans with
  | error fault => simp [hrun, Except.bind] at h
  | ok chart' =>
    rw [hrun, Except.bind] at h
    split at h
    · cases hfull : chart'.summary true with
      | error fault => simp [hfull, Except.bind] at h
      | ok text => cases hshort : chart'.summary false <;> simp_all [Except.bind]
    · exact h

theorem reaches_of_chart (ht : p.sentence m tokens options = .ok t) {chart : Chart K}
    (h : (p.chart m tokens options).result = .ok chart) : t.Reaches chart :=
  ⟨t.blank.spans, Sentence.schedule_spans, run_of_chart ht h⟩

/-- A parse ends with a complete chart, and so does a run in any order. -/
theorem complete_of_chart (ht : p.sentence m tokens options = .ok t) {chart : Chart K}
    (h : (p.chart m tokens options).result = .ok chart ∨ t.Reaches chart) : t.Complete chart := by
  rcases h with h | h
  · exact (reaches_of_chart ht h).complete
  · exact h.complete

/-- A parse that ends has a sentence. -/
theorem exists_sentence {chart : Chart K} (h : (p.chart m tokens options).result = .ok chart) :
    ∃ t, p.sentence m tokens options = .ok t := by
  rw [sentence]
  split
  · rename_i hroom
    rw [Parser.chart, Traced.result_bind, Traced.result_ofExcept, Chart.create, dif_pos hroom] at h
    simp [Except.bind] at h
  · exact ⟨_, rfl⟩

end Parser

end Categorial
