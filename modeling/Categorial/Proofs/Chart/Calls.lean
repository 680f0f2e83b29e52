import Categorial.Proofs.Chart.Push
import Categorial.Proofs.Chart.Streaming

/-!
Charts to which cells are offered one after the other, at any spans and in any order. A call that
fails leaves the chart as it is. Main statement: after every prefix of the calls, the beam of a span
holds the first cells that were offered at this span, ranked and without repetitions, and its table
holds their steps.
-/

namespace Categorial.Chart

variable {K : Type}

/-- What calls that do not fail offer at a span. -/
def offersAt (chart : Chart K) (s : Span) (xs : List (Cell K × Traced (Rank K))) :
    List (Offer K) :=
  (xs.filter fun x => x.1.span = s).filterMap fun x => (chart.offer x.1 x.2).toOption

theorem offersAt_append (chart : Chart K) (s : Span) (xs ys : List (Cell K × Traced (Rank K))) :
    chart.offersAt s (xs ++ ys) = chart.offersAt s xs ++ chart.offersAt s ys := by
  rw [offersAt, List.filter_append, List.filterMap_append, offersAt, offersAt]

theorem offersAt_singleton (chart : Chart K) (s : Span) (x : Cell K × Traced (Rank K)) :
    chart.offersAt s [x] = if x.1.span = s then (chart.offer x.1 x.2).toOption.toList else [] := by
  rw [offersAt]
  by_cases h : x.1.span = s
  · cases hoffer : (chart.offer x.1 x.2).toOption <;> simp [h, hoffer]
  · simp [h]

theorem offersAt_subset (chart : Chart K) (s : Span) (xs : List (Cell K × Traced (Rank K))) :
    chart.offersAt s xs ⊆ xs.filterMap fun x => (chart.offer x.1 x.2).toOption :=
  (List.filter_sublist.filterMap _).subset

variable [Scalar K]

/-- The chart after a cell is inserted with a rank; if that fails, the chart before. -/
def call (chart : Chart K) (x : Cell K × Traced (Rank K)) : Chart K :=
  match (chart.insert x.1 x.2).result with
  | .ok inserted => inserted.2
  | .error _ => chart

/-- The chart after some calls. -/
def calls (chart : Chart K) (xs : List (Cell K × Traced (Rank K))) : Chart K := xs.foldl call chart

theorem call_eq (chart : Chart K) (x : Cell K × Traced (Rank K)) :
    chart.call x = chart.pushAll (chart.offer x.1 x.2).toOption.toList := by
  rw [call, result_insert]
  cases chart.offer x.1 x.2 with
  | error fault => rfl
  | ok o => rfl

theorem frame_call (chart : Chart K) (x : Cell K × Traced (Rank K)) :
    (chart.call x).size = chart.size ∧ (chart.call x).beamSize = chart.beamSize := by
  rw [call_eq]
  exact ⟨(frame_pushAll _ _).1, (frame_pushAll _ _).2.1⟩

theorem frame_calls (chart : Chart K) (xs : List (Cell K × Traced (Rank K))) :
    (chart.calls xs).size = chart.size ∧ (chart.calls xs).beamSize = chart.beamSize := by
  induction xs generalizing chart with
  | nil => exact ⟨rfl, rfl⟩
  | cons x xs ih =>
    obtain ⟨hsize, hroom⟩ := ih (chart.call x)
    exact ⟨hsize.trans (frame_call chart x).1, hroom.trans (frame_call chart x).2⟩

/-- The beam of a span after some calls on an empty chart is made of the offers at that span. -/
theorem beamAt_calls {blank : Chart K} (hblank : blank.beams = []) (s : Span)
    (xs : List (Cell K × Traced (Rank K))) :
    (blank.calls xs).beamAt s = Beam.ofOffers blank.beamSize (blank.offersAt s xs) := by
  induction xs using List.reverseRecOn with
  | nil => simp [calls, beamAt, hblank, offersAt, Beam.ofOffers]
  | append_singleton xs x ih =>
    obtain ⟨hsize, hroom⟩ := frame_calls blank xs
    have hconcat : blank.calls (xs ++ [x]) = (blank.calls xs).call x := by
      rw [calls, List.foldl_append, calls, List.foldl_cons, List.foldl_nil]
    rw [hconcat, call_eq, beamAt_pushAll, offer_congr hsize, hroom, ih, offersAt_append,
      offersAt_singleton, Beam.ofOffers, Beam.ofOffers, List.foldl_append]
    congr 1
    cases hoffer : blank.offer x.1 x.2 with
    | error fault => simp [Except.toOption]
    | ok o =>
      have hspan : o.cell.span = x.1.span := by rw [(offer_eq_ok.1 hoffer).2.2.2]
      by_cases h : x.1.span = s <;> simp [Except.toOption, hspan, h]

variable [OrderedScalar K]

/-- The invariant holds of every beam after some calls on an empty chart. -/
theorem ranked_calls {blank : Chart K} (hblank : blank.beams = []) {k : Nat}
    (hroom : blank.beamSize.whole = .ok k) {s : Span} {xs : List (Cell K × Traced (Rank K))}
    (hrank : Offer.Rankable (blank.offersAt s xs)) :
    Beam.Ranked k (blank.offersAt s xs) ((blank.calls xs).beamAt s) := by
  rw [beamAt_calls hblank]
  exact Beam.ranked_ofOffers hrank hroom (blank.pos_of_whole hroom)

/-- A call says that its cell was taken just if the cell is retained right after it and its step was
not retained before. -/
theorem taken_iff {blank : Chart K} (hblank : blank.beams = []) {k : Nat}
    (hroom : blank.beamSize.whole = .ok k) {xs : List (Cell K × Traced (Rank K))}
    {x : Cell K × Traced (Rank K)} (hrank : Offer.Rankable (blank.offersAt x.1.span (xs ++ [x])))
    {taken : Bool} {after : Chart K}
    (hinsert : ((blank.calls xs).insert x.1 x.2).result = .ok (taken, after)) :
    ∃ old new, (blank.calls xs).cells x.1.span = .ok old ∧ after.cells x.1.span = .ok new ∧
      (taken = true ↔ x.1 ∈ new ∧ ∀ d ∈ old, d.sameStep x.1 = false) := by
  obtain ⟨hsize, hbeamSize⟩ := frame_calls blank xs
  rw [offersAt_append] at hrank
  have hxs := hrank.of_subset (List.subset_append_left ..)
  have hranked := ranked_calls hblank hroom hxs
  rw [result_insert] at hinsert
  cases hoffer : (blank.calls xs).offer x.1 x.2 with
  | error fault => simp [hoffer, Except.map] at hinsert
  | ok o =>
    obtain ⟨hs, -, -, hcell⟩ := offer_eq_ok.1 hoffer
    simp only [hoffer, Except.map, Except.ok.injEq, Prod.mk.injEq] at hinsert
    obtain ⟨rfl, rfl⟩ := hinsert
    have hdefined : o.rank.Defined := by
      rw [offer_congr hsize] at hoffer
      rw [offersAt_singleton, if_pos rfl, hoffer] at hrank
      exact hrank.defined o (by simp [Except.toOption])
    have hnew : ((blank.calls xs).push o).beamAt x.1.span =
        (((blank.calls xs).beamAt x.1.span).insert (blank.calls xs).beamSize o.rank x.1).2 := by
      rw [beamAt_push, if_pos (by rw [hcell]), Beam.push, hcell]
    have hspan : ((blank.calls xs).push o).hasSpan x.1.span = true := hs
    refine ⟨_, _, cells_eq hs, cells_eq hspan, ?_⟩
    rw [hnew, hranked.taken_iff hxs.defined (hbeamSize ▸ hroom) (blank.pos_of_whole hroom) hdefined,
      and_comm, ← Bool.not_eq_true, hranked.holds_iff]
    simp only [not_exists, not_and, Bool.not_eq_true]

/-- After every prefix of some calls on an empty chart, each span holds the first `k` cells that
were offered there: without repetitions, ranked, and with their keys strictly in order. The table of
a span has the steps of the retained cells. A call says that its cell was taken if the cell is
retained right after it and its step was not retained before, and changes no other span. -/
theorem calls_keep_best {size : Int} {room : Number} {root : Option Typing} {blank : Chart K}
    {k : Nat} (hblank : create size room root = .ok blank) (hroom : room.whole = .ok k)
    (xs : List (Cell K × Traced (Rank K))) (hrank : ∀ s, Offer.Rankable (blank.offersAt s xs)) :
    (∀ front, front <+: xs → ∀ s, blank.hasSpan s = true → ∃ b,
      (blank.calls front).beam s = .ok b ∧ b.offers = Offer.best k (blank.offersAt s front) ∧
        b.steps.Perm b.cells ∧ b.placed.Pairwise fun a a' => a.before a' = true) ∧
    (∀ front x back, xs = front ++ x :: back → ∀ taken after,
      ((blank.calls front).insert x.1 x.2).result = .ok (taken, after) →
        blank.calls (front ++ [x]) = after ∧
        (∃ old new, (blank.calls front).cells x.1.span = .ok old ∧
          after.cells x.1.span = .ok new ∧
          (taken = true ↔ x.1 ∈ new ∧ ∀ d ∈ old, d.sameStep x.1 = false)) ∧
        ∀ s, s ≠ x.1.span → after.beam s = (blank.calls front).beam s) := by
  obtain ⟨-, hsize, -, hbeams⟩ := beams_of_create hblank
  have hwhole : blank.beamSize.whole = .ok k := by rw [hsize, hroom]
  have hfirst : ∀ {front}, front <+: xs → ∀ s, Offer.Rankable (blank.offersAt s front) := by
    rintro front ⟨back, rfl⟩ s
    have hall := hrank s
    rw [offersAt_append] at hall
    exact hall.of_subset (List.subset_append_left ..)
  have hspans : ∀ front s, (blank.calls front).hasSpan s = blank.hasSpan s := by
    intro front s
    rw [hasSpan, (frame_calls blank front).1, hasSpan]
  constructor
  · intro front hfront s hs
    have hranked := ranked_calls hbeams hwhole (hfirst hfront s)
    refine ⟨_, beam_eq ((hspans front s).trans hs), ?_, hranked.steps_perm, hranked.sorted⟩
    rw [hranked.offers_eq, Offer.best_eq_top_key (hfirst hfront s).defined]
  · rintro front x back rfl taken after hinsert
    have hcall : blank.calls (front ++ [x]) = after := by
      rw [calls, List.foldl_append, List.foldl_cons, List.foldl_nil, ← calls, call, hinsert]
    have hnext : front ++ [x] <+: front ++ x :: back := ⟨back, by simp⟩
    exact ⟨hcall, taken_iff hbeams hwhole (hfirst hnext x.1.span) hinsert,
      fun s hs => beam_insert_of_ne hinsert hs⟩

/-- A cell for a token, of the category of skipped tokens. -/
def plainCell (token : String) (score : Rat) : Cell Rat :=
  .lexical ⟨[token], .empty, .fixed, []⟩ ⟨0, 1⟩ score false 0

/-- A cell that was pushed out of a beam for one cell is inserted again. -/
theorem calls_keep_best_pushed_out : ∃ blank : Chart Rat, create 1 (.int 1) none = .ok blank ∧
    ∃ b, (blank.calls [(plainCell "a" 1, pure ⟨1, 0⟩), (plainCell "b" 2, pure ⟨2, 0⟩),
      (plainCell "a" 1, pure ⟨1, 0⟩)]).beam ⟨0, 1⟩ = .ok b ∧
        b.offers = Offer.best 1 [⟨⟨1, 0⟩, plainCell "a" 1⟩, ⟨⟨2, 0⟩, plainCell "b" 2⟩,
          ⟨⟨1, 0⟩, plainCell "a" 1⟩] := by
  let blank : Chart Rat := ⟨1, .int 1, rfl, none, []⟩
  have hblank : create 1 (.int 1) none = .ok blank := rfl
  have hroom : (Number.int 1).whole = .ok (1 : Nat) := rfl
  have hab : (plainCell "a" 1).sameStep (plainCell "b" 2) = false := by
    simp [plainCell, Cell.sameStep, Entry.same]
  have hba := (Cell.sameStep_comm (plainCell "b" 2) (plainCell "a" 1)).trans hab
  have hrank : Offer.Rankable ([⟨⟨1, 0⟩, plainCell "a" 1⟩, ⟨⟨2, 0⟩, plainCell "b" 2⟩,
      ⟨⟨1, 0⟩, plainCell "a" 1⟩] : List (Offer Rat)) := by
    refine ⟨fun o _ => ⟨defined_rat _, defined_rat _⟩, ?_⟩
    simp [Offer.sameStep, Rank.same, Scalar.same, hab, hba]
  have hkept := calls_keep_best hblank hroom [(plainCell "a" 1, pure ⟨1, 0⟩),
    (plainCell "b" 2, pure ⟨2, 0⟩), (plainCell "a" 1, pure ⟨1, 0⟩)]
    fun s => hrank.of_subset (offersAt_subset blank s _)
  obtain ⟨b, hb, hoffers, -⟩ := hkept.1 _ (List.prefix_refl _) ⟨0, 1⟩ rfl
  exact ⟨blank, hblank, b, hb, hoffers⟩

/-- A cell that is inserted twice is retained after the second call, which says that it was not
taken. -/
theorem not_taken_again : ∃ blank once twice : Chart Rat, create 1 (.int 2) none = .ok blank ∧
    (blank.insert (plainCell "a" 1) (pure ⟨1, 0⟩)).result = .ok (true, once) ∧
    (once.insert (plainCell "a" 1) (pure ⟨1, 0⟩)).result = .ok (false, twice) ∧
    twice.cells ⟨0, 1⟩ = .ok [plainCell "a" 1] := by
  let c := plainCell "a" 1
  let b : Beam Rat := ⟨[⟨⟨1, 0⟩, 0, c⟩], [c], 1⟩
  let once : Chart Rat := ⟨1, .int 2, rfl, none, [(⟨0, 1⟩, b)]⟩
  have hempty : (Beam.empty : Beam Rat).insert (.int 2) ⟨1, 0⟩ c = (true, b) := by
    simp [Beam.insert, Beam.empty, Beam.holds, insertRanked, rankOf, halve, Beam.kept, b]
  have hheld : b.insert (.int 2) ⟨1, 0⟩ c = (false, b) := by
    rw [Beam.insert, if_pos]
    rw [Beam.holds, List.any_cons, Cell.sameStep_refl]
    rfl
  let after (inserted : Bool × Beam Rat) : Except Fault (Bool × Chart Rat) :=
    .ok (inserted.1, { once with beams := [(⟨0, 1⟩, inserted.2)] })
  refine ⟨_, once, once, rfl, ?_, ?_, rfl⟩
  · change after ((Beam.empty : Beam Rat).insert (.int 2) ⟨1, 0⟩ c) = _
    rw [hempty]
  · change after (b.insert (.int 2) ⟨1, 0⟩ c) = _
    rw [hheld]

end Categorial.Chart
