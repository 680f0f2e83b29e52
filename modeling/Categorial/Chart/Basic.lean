import Categorial.Chart.Beam
import Categorial.Traced

/-!
Charts: a beam for every span of an input. A cell is offered to the beam of its span; its rank is
asked for only when that beam exists. Main statement: offering a cell changes the beam of its span
alone.
-/

namespace Categorial

/-- A chart over `size` tokens. -/
structure Chart (K : Type) where
  size : Int
  beamSize : Number
  /-- A beam has room for something. -/
  positive : beamSize.isAtMostZero = false
  /-- The type of full parses; if there is none, every type is one but those of skipped tokens and
  of partial coordinations. -/
  root : Option Typing
  /-- The beams that cells were offered to. -/
  beams : List (Span × Beam K)

namespace Chart

-- the zero of sums is the built-in one, whatever else is imported
attribute [local instance (high)] Zero.ofOfNat0

variable {K : Type}

/-- The chart without cells. -/
def create (size : Int) (beamSize : Number) (root : Option Typing) : Except Fault (Chart K) :=
  if h : beamSize.isAtMostZero then .error (.beamSize beamSize.text)
  else .ok ⟨size, beamSize, by simpa using h, root, []⟩

def hasSpan (chart : Chart K) (s : Span) : Bool :=
  0 ≤ s.start && s.start < s.stop && s.stop ≤ chart.size

def beam (chart : Chart K) (s : Span) : Except Fault (Beam K) :=
  if chart.hasSpan s then .ok ((chart.beams.lookup s).getD .empty)
  else .error (.chartSpan s.start s.stop chart.size)

/-- The ranked cells of a span. -/
def cells (chart : Chart K) (s : Span) : Except Fault (List (Cell K)) :=
  (chart.beam s).map Beam.cells

/-- The beams with the beam of a span replaced. -/
def setBeam (s : Span) (b : Beam K) : List (Span × Beam K) → List (Span × Beam K)
  | [] => [(s, b)]
  | (s', b') :: beams => if s = s' then (s, b) :: beams else (s', b') :: setBeam s b beams

/-- Whether a span is the whole input. -/
def isFullSpan (chart : Chart K) (s : Span) : Bool := s.start == 0 && s.stop == chart.size

/-- Whether a type is one of full parses. -/
def isRootType (chart : Chart K) (t : Typing) : Bool :=
  match chart.root with
  | none => !t.isEmpty && !t.any SyntaxType.isCoordination
  | some root => t.same root

/-- Whether a category at a span makes a full parse. -/
def isFullParse (chart : Chart K) (s : Span) (c : Category) : Bool :=
  chart.isFullSpan s && chart.isRootType c.type

/-- Offers a cell to the beam of its span, and tells whether it was taken. -/
def insert [Scalar K] (chart : Chart K) (c : Cell K) (rank : Traced (Rank K)) :
    Traced (Bool × Chart K) := do
  let beam ← .ofExcept (chart.beam c.span)
  let rank ← rank
  if let some fault := c.category.keyFault? then .fail fault
  let inserted := beam.insert chart.beamSize rank c
  return (inserted.1, { chart with beams := setBeam c.span inserted.2 chart.beams })

/-- The retained parses of the whole input. -/
def fullParses (chart : Chart K) : Except Fault (List (Cell K)) :=
  if chart.size = 0 then .ok []
  else (chart.cells ⟨0, chart.size⟩).map fun cells => cells.filter (·.full)

/-- All spans, the shorter ones first, and those of one length from left to right. -/
def spans (chart : Chart K) : List Span :=
  (List.range chart.size.toNat).flatMap fun n =>
    (List.range (chart.size.toNat - n)).map fun (i : Nat) => ⟨i, i + n + 1⟩

/-- The number of retained cells. -/
def retained (chart : Chart K) : Nat := (chart.beams.map (·.2.size)).sum

/-- The lines of a report on the cells of a span. -/
def spanLines [Scalar K] (chart : Chart K) (verbose : Bool) (s : Span) :
    Except Fault (List String) := do
  match chart.cells s with
  | .error _ | .ok [] => return []
  | .ok cells =>
    let texts ← if verbose then cells.mapM Cell.text else pure []
    return (s.text ++ ": " ++ toString cells.length ++ " cells") :: texts.map fun t => "  " ++ t

def summary [Scalar K] (chart : Chart K) (verbose : Bool) : Except Fault String := do
  let lines ← chart.spans.mapM (chart.spanLines verbose)
  return "Chart(num_tokens=" ++ toString chart.size ++ ", beam_size=" ++ chart.beamSize.text
    ++ ", cells=" ++ toString chart.retained ++ "):\n" ++ Text.indent (Text.block lines.flatten)

theorem lookup_setBeam (s t : Span) (b : Beam K) (beams : List (Span × Beam K)) :
    (setBeam s b beams).lookup t = if t = s then some b else beams.lookup t := by
  induction beams with
  | nil =>
    by_cases h : t = s
    · simp [setBeam, h]
    · simp [setBeam, h, List.lookup_cons, beq_false_of_ne h]
  | cons p beams ih =>
    obtain ⟨s', b'⟩ := p
    rw [setBeam]
    by_cases h : s = s'
    · subst h
      by_cases ht : t = s
      · simp [ht]
      · simp [List.lookup_cons, ht, beq_false_of_ne ht]
    · rw [if_neg h, List.lookup_cons, List.lookup_cons, ih]
      by_cases ht : t = s'
      · subst ht
        have hne : t ≠ s := fun e => h e.symm
        simp [hne]
      · simp [beq_false_of_ne ht]

/-- Offering a cell changes the beam of its span alone. -/
theorem beam_insert_of_ne [Scalar K] {chart chart' : Chart K} {c : Cell K} {rank : Traced (Rank K)}
    {taken : Bool} (h : (chart.insert c rank).result = .ok (taken, chart')) {s : Span}
    (hs : s ≠ c.span) : chart'.beam s = chart.beam s := by
  simp only [insert, Traced.result_bind, Traced.result_ofExcept] at h
  cases hb : chart.beam c.span with
  | error fault => simp [hb, Except.bind] at h
  | ok b =>
    cases hr : rank.result with
    | error fault => simp [hb, hr, Except.bind] at h
    | ok r =>
      simp only [hb, hr, Except.bind] at h
      split at h
      · simp [Except.bind] at h
      · simp only [Traced.result_pure, Except.ok.injEq, Prod.mk.injEq] at h
        obtain ⟨-, rfl⟩ := h
        simp [beam, hasSpan, lookup_setBeam, hs]

end Chart

end Categorial
