import Categorial.Proofs.Parsing.Placements
import Categorial.Proofs.Parsing.Run

/-!
The entries of a run. Main statement: placing the entries succeeds just if those of every span can
be offered, and then the beam of every span is what they make.
-/

namespace Categorial.Sentence

variable {K : Type} {t : Sentence K}

theorem hashable_of_entriesAt (h : t.parser.config.skipsWords = true) {s : Span}
    (hone : s.length = 1) {entries : List Entry} (hentries : t.entriesAt s = .ok entries) :
    t.parser.skipped.hashable = true := by
  rw [entriesAt, h, hone] at hentries
  obtain ⟨_, hcreate, -⟩ := bind_eq_ok.1 hentries
  exact (Entry.create_ok_iff.1 hcreate).1

theorem entriesAt_of_not_skips (h : t.parser.config.skipsWords = false) (s : Span) :
    t.entriesAt s = .ok (t.view.get (Parser.tokensOf t.tokens s)) := by
  rw [entriesAt, h]
  rfl

theorem entriesAt_of_skips (h : t.parser.config.skipsWords = true)
    (hskipped : t.parser.skipped.hashable = true) (s : Span) :
    t.entriesAt s = .ok (t.view.get (Parser.tokensOf t.tokens s) ++ if s.length = 1 then
      [Parser.skipper t.parser.skipped (Parser.tokensOf t.tokens s)] else []) := by
  rw [entriesAt, h, Bool.true_and]
  by_cases hone : s.length = 1
  · rw [if_pos (by simpa using hone), if_pos hone, Parser.create_skipper hskipped]
    rfl
  · rw [if_neg (by simpa using hone), if_neg hone, List.append_nil]
    rfl

/-- The entries that can be offered at a span are those of its tokens, and one that skips its only
token. -/
theorem mem_entriesAt {s : Span} {entries : List Entry} (h : t.entriesAt s = .ok entries)
    {e : Entry} : e ∈ entries ↔ e ∈ t.view.get (Parser.tokensOf t.tokens s) ∨
      t.parser.config.skipsWords = true ∧ s.length = 1 ∧
        e = Parser.skipper t.parser.skipped (Parser.tokensOf t.tokens s) := by
  cases hskips : t.parser.config.skipsWords with
  | false =>
    rw [entriesAt_of_not_skips hskips, Except.ok.injEq] at h
    simp [← h]
  | true =>
    by_cases hone : s.length = 1
    · have hskipped := hashable_of_entriesAt hskips hone h
      rw [entriesAt_of_skips hskips hskipped, if_pos hone, Except.ok.injEq] at h
      simp [← h, hone]
    · rw [entriesAt, hskips, Bool.true_and, if_neg (by simpa using hone)] at h
      simp [← Except.ok.inj h, hone]

variable [Scalar K]

/-- The chart after the entries were placed. -/
def entered (t : Sentence K) : Except Fault (Chart K) :=
  (t.parser.addEntries t.model t.view t.tokens t.blank).result

/-- Placing entries is offering those that are listed, and then those that skip tokens. -/
theorem entered_eq : t.entered =
    (gather t.offerEntry (Parser.placements t.view t.tokens)).bind fun stored =>
      if t.parser.config.skipsWords then
        (Parser.skippers t.parser.skipped t.tokens).bind fun xs =>
          (gather t.offerEntry xs).map fun skipping => t.blank.pushAll (stored ++ skipping)
      else .ok (t.blank.pushAll stored) := by
  have hoffer : ∀ {chart : Chart K}, t.Frames chart → ∀ xs,
      (xs.foldlM (t.parser.offerEntry t.model) chart).result =
        (gather t.offerEntry xs).map chart.pushAll := fun h xs =>
    result_foldlM (P := t.Frames) (fun _ h placed _ => h.result_offerEntry placed)
      (fun _ h _ _ os _ => h.pushAll os) h
  rw [entered, Parser.addEntries, Traced.result_bind, hoffer frames_blank]
  cases gather t.offerEntry (Parser.placements t.view t.tokens) with
  | error fault => rfl
  | ok stored =>
    simp only [Except.map, Except.bind]
    split
    · rw [Traced.result_bind, Traced.result_ofExcept]
      congr 1
      funext xs
      rw [hoffer (frames_blank.pushAll stored)]
      cases gather t.offerEntry xs with
      | error fault => rfl
      | ok skipping => exact congrArg Except.ok (Chart.pushAll_append _ _ _).symm
    · rfl

/-- The offers of entries at a span are those of the entries at that span. -/
theorem gather_filter_offerEntry {xs : List (Entry × Span)} {os : List (Offer K)}
    (h : gather t.offerEntry xs = .ok os) (s : Span) :
    gather t.offerEntry (xs.filter fun placed => placed.2 = s) =
      .ok (os.filter fun o => o.cell.span = s) := by
  refine gather_filter (fun placed zs hzs o ho => ?_) h
  obtain ⟨o', score, rfl, -, hcell, -⟩ := offerEntry_eq_ok hzs
  obtain rfl := List.mem_singleton.1 ho
  rw [hcell, leaf, Cell.span]

theorem offerEntries_eq {s : Span} {entries : List Entry} (h : t.entriesAt s = .ok entries) :
    t.offerEntries s = gather t.offerEntry (entries.map fun e => (e, s)) := by
  rw [offerEntries, h, gather_map]
  rfl

theorem beamAt_pushAll_blank (os : List (Offer K)) (s : Span) : (t.blank.pushAll os).beamAt s =
    Beam.ofOffers t.blank.beamSize (os.filter fun o => o.cell.span = s) := by
  have hempty : t.blank.beamAt s = .empty := by
    rw [Chart.beamAt, t.beams_blank]
    rfl
  rw [Chart.beamAt_pushAll, hempty, Beam.ofOffers]

/-- When the entries are placed, the beam of every span is what its entries make. -/
theorem beamAt_entered {chart : Chart K} (h : t.entered = .ok chart) : t.Frames chart ∧
    ∀ s, t.blank.hasSpan s = true → ∃ os, t.offerEntries s = .ok os ∧
      chart.beamAt s = Beam.ofOffers t.blank.beamSize os := by
  rw [entered_eq] at h
  cases hstored : gather t.offerEntry (Parser.placements t.view t.tokens) with
  | error fault => simp [hstored, Except.bind] at h
  | ok stored =>
    have hspan : ∀ s, t.blank.hasSpan s = true → gather t.offerEntry
        ((t.view.get (Parser.tokensOf t.tokens s)).map fun e => (e, s)) =
          .ok (stored.filter fun o => o.cell.span = s) := by
      intro s hs
      obtain ⟨hstart, hlt, hstop⟩ := hasSpan_iff.1 hs
      rw [← Parser.filter_placements t.view hstart hlt hstop]
      exact gather_filter_offerEntry hstored s
    simp only [hstored, Except.bind] at h
    cases hskips : t.parser.config.skipsWords with
    | false =>
      rw [hskips, if_neg Bool.false_ne_true, Except.ok.injEq] at h
      subst h
      refine ⟨frames_blank.pushAll stored, fun s hs => ⟨_, ?_, beamAt_pushAll_blank stored s⟩⟩
      rw [offerEntries_eq (entriesAt_of_not_skips hskips s), hspan s hs]
    | true =>
      rw [hskips, if_pos rfl] at h
      cases hxs : Parser.skippers t.parser.skipped t.tokens with
      | error fault => simp [hxs] at h
      | ok xs =>
        cases hskipping : gather t.offerEntry xs with
        | error fault => simp [hxs, hskipping, Except.map] at h
        | ok skipping =>
          simp only [hxs, hskipping, Except.map, Except.ok.injEq] at h
          subst h
          refine ⟨frames_blank.pushAll _, fun s hs => ⟨_, ?_, beamAt_pushAll_blank _ s⟩⟩
          obtain ⟨hstart, hlt, hstop⟩ := hasSpan_iff.1 hs
          have hskipped : t.parser.skipped.hashable = true := by
            cases htokens : t.tokens with
            | nil =>
              rw [htokens, List.length_nil] at hstop
              omega
            | cons token tokens => exact Parser.hashable_of_skippers (htokens ▸ hxs)
          have hown := gather_filter_offerEntry hskipping s
          rw [Parser.filter_skippers hskipped hxs hstart hlt hstop] at hown
          rw [offerEntries_eq (entriesAt_of_skips hskips hskipped s), List.map_append,
            List.filter_append]
          refine gather_append (hspan s hs) ?_
          rw [← hown]
          congr 1
          split <;> rfl

/-- If the entries of every span can be offered, they can be placed. -/
theorem exists_entered (h : ∀ s, t.blank.hasSpan s = true → ∃ os, t.offerEntries s = .ok os) :
    ∃ chart, t.entered = .ok chart := by
  have hoffer : ∀ s, t.blank.hasSpan s = true → ∃ entries, t.entriesAt s = .ok entries ∧
      ∀ e ∈ entries, ∃ os, t.offerEntry (e, s) = .ok os := by
    intro s hs
    obtain ⟨os, hos⟩ := h s hs
    cases hentries : t.entriesAt s with
    | error fault => simp [offerEntries, hentries, bind, Except.bind] at hos
    | ok entries =>
      refine ⟨entries, rfl, fun e he => ?_⟩
      rw [offerEntries_eq hentries] at hos
      obtain ⟨os', hos', -⟩ := subset_of_gather hos (List.mem_map_of_mem he)
      exact ⟨os', hos'⟩
  obtain ⟨stored, hstored⟩ : ∃ os,
      gather t.offerEntry (Parser.placements t.view t.tokens) = .ok os := by
    refine gather_ok ?_
    intro placed hplaced
    obtain ⟨s, hs, hmem⟩ := List.mem_flatMap.1 hplaced
    obtain ⟨e, he, rfl⟩ := List.mem_map.1 hmem
    have hs := hasSpan_iff.2 (Parser.span_of_mem_placements hplaced)
    obtain ⟨entries, hentries, hall⟩ := hoffer s hs
    exact hall e ((mem_entriesAt hentries).2 (Or.inl he))
  rw [entered_eq, hstored]
  cases hskips : t.parser.config.skipsWords with
  | false => exact ⟨_, rfl⟩
  | true =>
    obtain ⟨xs, hxs, hskipping⟩ : ∃ xs, Parser.skippers t.parser.skipped t.tokens = .ok xs ∧
        ∃ os, gather t.offerEntry xs = .ok os := by
      cases htokens : t.tokens with
      | nil => exact ⟨[], rfl, [], rfl⟩
      | cons token tokens =>
        have hfirst : t.blank.hasSpan ⟨0, 1⟩ = true := by
          rw [hasSpan_iff, htokens, List.length_cons]
          dsimp only
          omega
        obtain ⟨entries, hentries, -⟩ := hoffer _ hfirst
        have hskipped := hashable_of_entriesAt hskips (by rfl) hentries
        rw [← htokens]
        have hxs := Parser.skippers_eq hskipped t.tokens
        refine ⟨_, hxs, gather_ok fun placed hplaced => ?_⟩
        have hspan := Parser.span_of_mem_skippers hskipped hxs hplaced
        obtain ⟨entries, hentries, hall⟩ := hoffer _ (hasSpan_iff.2 hspan)
        have hown : placed ∈ List.filter (fun x => x.2 = placed.2) _ :=
          List.mem_filter.2 ⟨hplaced, decide_eq_true rfl⟩
        rw [Parser.filter_skippers hskipped hxs hspan.1 hspan.2.1 hspan.2.2] at hown
        split at hown
        · rename_i hone
          rw [List.mem_singleton.1 hown]
          exact hall _ ((mem_entriesAt hentries).2 (Or.inr ⟨hskips, hone, rfl⟩))
        · exact absurd hown List.not_mem_nil
    obtain ⟨os, hos⟩ := hskipping
    simp only [Except.bind, if_true, hxs, hos]
    exact ⟨_, rfl⟩

end Categorial.Sentence
