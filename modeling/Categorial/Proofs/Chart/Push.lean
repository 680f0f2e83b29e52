import Categorial.Chart.Basic
import Categorial.Proofs.Chart.Beam
import Categorial.Proofs.Number.Whole

/-!
Offering cells to a chart in two steps: what is offered, which may fail and depends on the size of
the chart alone, and the chart after the offer, which is always there. Main statement: after some
offers, the beam of a span is what the offers at that span make of the beam before.
-/

namespace Categorial.Chart

variable {K : Type}

/-- The beam of a span, and the empty one for a span that the chart does not have. -/
def beamAt (chart : Chart K) (s : Span) : Beam K := (chart.beams.lookup s).getD .empty

theorem beam_eq {chart : Chart K} {s : Span} (h : chart.hasSpan s = true) :
    chart.beam s = .ok (chart.beamAt s) := if_pos h

theorem cells_eq {chart : Chart K} {s : Span} (h : chart.hasSpan s = true) :
    chart.cells s = .ok (chart.beamAt s).cells := by
  rw [cells, beam_eq h]
  rfl

theorem hasSpan_of_cells {chart : Chart K} {s : Span} {cs : List (Cell K)}
    (h : chart.cells s = .ok cs) : chart.hasSpan s = true := by
  by_contra hs
  rw [cells, beam, if_neg hs] at h
  simp [Except.map] at h

theorem beams_of_create {size : Int} {room : Number} {root : Option Typing} {blank : Chart K}
    (h : create size room root = .ok blank) :
    blank.size = size ∧ blank.beamSize = room ∧ blank.root = root ∧ blank.beams = [] := by
  unfold create at h
  split at h
  · simp at h
  · rw [← Except.ok.inj h]
    exact ⟨rfl, rfl, rfl, rfl⟩

/-- A beam with room for a whole number of cells has room for one. -/
theorem pos_of_whole (chart : Chart K) {k : Nat} (h : chart.beamSize.whole = .ok k) : 0 < k := by
  have hpos := chart.positive
  rw [Number.isAtMostZero, Number.le_of_whole h, decide_eq_false_iff_not] at hpos
  omega

/-- What is offered when a cell is inserted, unless that fails: the span of the cell has a beam, the
rank is found, and the category can be a key. -/
def offer (chart : Chart K) (c : Cell K) (rank : Traced (Rank K)) : Except Fault (Offer K) := do
  let _ ← chart.beam c.span
  let rank ← rank.result
  match c.category.keyFault? with
  | some fault => .error fault
  | none => .ok ⟨rank, c⟩

/-- What is offered is the cell with its rank, at a span of the chart. -/
theorem offer_eq_ok {chart : Chart K} {c : Cell K} {rank : Traced (Rank K)} {o : Offer K} :
    chart.offer c rank = .ok o ↔ chart.hasSpan c.span = true ∧ rank.result = .ok o.rank ∧
      c.category.hashable = true ∧ o.cell = c := by
  rw [offer]
  cases hs : chart.hasSpan c.span with
  | false => simp [beam, hs, bind, Except.bind]
  | true =>
    rw [beam_eq hs]
    cases hrank : rank.result with
    | error fault => simp [bind, Except.bind]
    | ok r =>
      obtain ⟨r', c'⟩ := o
      rw [← Category.keyFault?_eq_none]
      cases c.category.keyFault? <;> simp [bind, Except.bind, eq_comm]

/-- What is offered depends on the size of the chart alone. -/
theorem offer_congr {chart chart' : Chart K} (h : chart.size = chart'.size) (c : Cell K)
    (rank : Traced (Rank K)) : chart.offer c rank = chart'.offer c rank := by
  have hspan : chart.hasSpan c.span = chart'.hasSpan c.span := by rw [hasSpan, hasSpan, h]
  cases hs : chart'.hasSpan c.span with
  | false =>
    rw [offer, offer, beam, beam, hspan, hs, h]
    rfl
  | true =>
    rw [offer, offer, beam_eq hs, beam_eq (hspan.trans hs)]
    rfl

variable [Scalar K]

/-- The chart after an offer. -/
def push (chart : Chart K) (o : Offer K) : Chart K :=
  let beam := Beam.push chart.beamSize (chart.beamAt o.cell.span) o
  { chart with beams := setBeam o.cell.span beam chart.beams }

/-- The chart after some offers. -/
def pushAll (chart : Chart K) (os : List (Offer K)) : Chart K := os.foldl push chart

/-- Inserting a cell is an offer, which may fail, and what the beam of its span makes of it. -/
theorem result_insert (chart : Chart K) (c : Cell K) (rank : Traced (Rank K)) :
    (chart.insert c rank).result = (chart.offer c rank).map fun o =>
      (((chart.beamAt c.span).insert chart.beamSize o.rank c).1, chart.push o) := by
  rw [insert, offer]
  cases hs : chart.hasSpan c.span with
  | false =>
    have hbeam : chart.beam c.span = .error (.chartSpan c.span.start c.span.stop chart.size) :=
      if_neg (by rw [hs]; exact Bool.false_ne_true)
    simp [hbeam, bind, Except.bind, Except.map]
  | true =>
    simp only [beam_eq hs, Traced.result_bind, Traced.result_ofExcept]
    cases hrank : rank.result with
    | error fault => rfl
    | ok r =>
      cases c.category.keyFault? <;> simp [bind, Except.bind, Except.map, push, Beam.push]

theorem beamAt_push (chart : Chart K) (o : Offer K) (s : Span) : (chart.push o).beamAt s =
    if o.cell.span = s then Beam.push chart.beamSize (chart.beamAt s) o else chart.beamAt s := by
  rw [beamAt, push, lookup_setBeam]
  by_cases h : o.cell.span = s
  · rw [if_pos h, if_pos h.symm, h]
    rfl
  · rw [if_neg h, if_neg (Ne.symm h)]
    rfl

theorem pushAll_append (chart : Chart K) (os os' : List (Offer K)) :
    chart.pushAll (os ++ os') = (chart.pushAll os).pushAll os' := List.foldl_append

/-- Offers change neither the size of a chart nor what full parses are, nor the room of its
beams. -/
theorem frame_pushAll (chart : Chart K) (os : List (Offer K)) :
    (chart.pushAll os).size = chart.size ∧ (chart.pushAll os).beamSize = chart.beamSize ∧
      (chart.pushAll os).root = chart.root := by
  induction os generalizing chart with
  | nil => exact ⟨rfl, rfl, rfl⟩
  | cons o os ih => exact ih (chart.push o)

/-- The beam of a span is what the offers at that span make of the beam before. -/
theorem beamAt_pushAll (chart : Chart K) (os : List (Offer K)) (s : Span) :
    (chart.pushAll os).beamAt s = (os.filter fun o => o.cell.span = s).foldl
      (Beam.push chart.beamSize) (chart.beamAt s) := by
  induction os generalizing chart with
  | nil => rfl
  | cons o os ih =>
    have hcons : chart.pushAll (o :: os) = (chart.push o).pushAll os := rfl
    have hroom : (chart.push o).beamSize = chart.beamSize := rfl
    rw [hcons, ih, hroom, beamAt_push]
    by_cases h : o.cell.span = s
    · rw [if_pos h, List.filter_cons_of_pos (by simpa using h), List.foldl_cons]
    · rw [if_neg h, List.filter_cons_of_neg (by simpa using h)]

end Categorial.Chart
