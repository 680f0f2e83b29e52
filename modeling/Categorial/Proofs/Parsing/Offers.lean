import Categorial.Parsing.Parser
import Categorial.Proofs.Chart.Push
import Categorial.Proofs.Collection.Gather

/-!
What a parse offers to the spans of a sentence. The entries of a span and the results of rules on
the cells of shorter spans are offered first, and then the results of rules on the cells that are
retained by then. Which of the offered cells are retained is a parameter: this gives the candidates
of every span by recursion on its length. Main statement: the recursion is what it says.
-/

namespace Categorial

/-- What a parse of a sentence depends on: a parser, a model, the entries that may be used, the
tokens, and a chart for them without cells. -/
structure Sentence (K : Type) where
  parser : Parser K
  model : Model K
  view : LexiconView
  tokens : List String
  blank : Chart K
  size_blank : blank.size = tokens.length
  beams_blank : blank.beams = []

/-- The number of tokens of a span. -/
def Span.length (s : Span) : Nat := (s.stop - s.start).toNat

namespace Parser

/-- The two parts that a span splits into are shorter than it. -/
theorem length_lt_of_mem_splits {s : Span} {parts : Span × Span} (h : parts ∈ splits s) :
    parts.1.length < s.length ∧ parts.2.length < s.length := by
  obtain ⟨i, hi, rfl⟩ := List.mem_map.1 h
  rw [List.mem_range] at hi
  simp only [Span.length]
  omega

theorem splits_eq {s : Span} {parts : Span × Span} (h : parts ∈ splits s) :
    parts.1.start = s.start ∧ parts.1.start < parts.1.stop ∧ parts.1.stop = parts.2.start ∧
      parts.2.start < parts.2.stop ∧ parts.2.stop = s.stop := by
  obtain ⟨i, hi, rfl⟩ := List.mem_map.1 h
  rw [List.mem_range] at hi
  dsimp only
  omega

end Parser

namespace Cell

variable {K : Type}

theorem spanOf_pair {l r : Cell K} {s : Span} (h : spanOf [l, r] = .ok s) :
    l.span.stop = r.span.start ∧ s = ⟨l.span.start, r.span.stop⟩ := by
  rw [spanOf, joinSpans] at h
  split at h
  · rename_i hjoin
    exact ⟨hjoin, (Except.ok.inj h).symm⟩
  · simp at h

end Cell

namespace Sentence

theorem hasSpan_iff {K : Type} {t : Sentence K} {s : Span} : t.blank.hasSpan s = true ↔
    0 ≤ s.start ∧ s.start < s.stop ∧ s.stop ≤ t.tokens.length := by
  rw [Chart.hasSpan, t.size_blank]
  simp [and_assoc]

variable {K : Type} (t : Sentence K)

/-- The entries of a span: those of its tokens, and then one that skips a single token, if tokens
may be skipped. -/
def entriesAt (s : Span) : Except Fault (List Entry) := do
  let tokens := Parser.tokensOf t.tokens s
  if t.parser.config.skipsWords && s.length == 1 then
    let skipper ← Entry.create tokens t.parser.skipped .skipping []
    return t.view.get tokens ++ [skipper]
  else return t.view.get tokens

/-- The cell of an entry at a span. -/
def leaf (e : Entry) (s : Span) (score : K) : Cell K :=
  .lexical e s score (t.blank.isFullParse s e.category) 0

/-- The cell of a result of a rule on children. -/
def node (children : List (Cell K)) (r : RuleResult) (s : Span) (score : K) : Cell K :=
  .derived r.category r.rule children s score (t.blank.isFullParse s r.category) 0

section

variable (e : Entry) (children : List (Cell K)) (r : RuleResult) (s : Span) (score : K)

@[simp] theorem leaf_span : (t.leaf e s score).span = s := rfl

@[simp] theorem leaf_category : (t.leaf e s score).category = e.category := rfl

@[simp] theorem leaf_score : (t.leaf e s score).score = score := rfl

@[simp] theorem leaf_children : (t.leaf e s score).children = [] := rfl

@[simp] theorem node_span : (t.node children r s score).span = s := rfl

@[simp] theorem node_category : (t.node children r s score).category = r.category := rfl

@[simp] theorem node_rule : (t.node children r s score).rule = r.rule := rfl

@[simp] theorem node_score : (t.node children r s score).score = score := rfl

@[simp] theorem node_children : (t.node children r s score).children = children := rfl

end

/-- A choice of offered cells of which no two are one step. -/
structure Selects (select : List (Offer K) → List (Cell K)) : Prop where
  subset : ∀ os, ∀ c ∈ select os, ∃ o ∈ os, o.cell = c
  apart : ∀ os, (select os).Pairwise fun c d => c.sameStep d = false

variable [Scalar K]

/-- What the chart of the sentence is offered for a cell. -/
def offerCell (c : Except Fault (Cell K)) : Except Fault (List (Offer K)) := do
  let c ← c
  let o ← t.blank.offer c (t.parser.ranking.rank c)
  return [o]

/-- What is offered for an entry at a span. -/
def offerEntry (placed : Entry × Span) : Except Fault (List (Offer K)) :=
  t.offerCell do
    let score ← t.model.scoreEntry placed.1
    Cell.ofEntry placed.1 placed.2 score (t.blank.isFullParse placed.2 placed.1.category) 0

/-- The score of a result of a rule: that of its children, and that of the rule. -/
def scoreNode (scores : List K) (rule : RuleName) : Except Fault K := do
  let childScore ← Scalar.total (scores.map .ok)
  let ruleScore ← t.model.scoreRule rule
  Scalar.plus childScore ruleScore

/-- What is offered for a result of a rule on children. -/
def offerResult (children : List (Cell K)) (r : RuleResult) : Except Fault (List (Offer K)) :=
  t.offerCell do
    let score ← t.scoreNode (children.map (·.score)) r.rule
    let s ← Cell.spanOf children
    Cell.ofChildren r.category r.rule children score (t.blank.isFullParse s r.category) 0

/-- What is offered for two cells that lie side by side. -/
def offerPair (pair : Cell K × Cell K) : Except Fault (List (Offer K)) := do
  let results ← (t.parser.grammar.applyBinary pair.1.category pair.2.category).result
  gather (t.offerResult [pair.1, pair.2]) results

/-- What is offered for one cell. -/
def offerShift (c : Cell K) : Except Fault (List (Offer K)) := do
  let results ← (t.parser.grammar.applyUnary c.category).result
  gather (t.offerResult [c]) results

/-- What is offered for the entries of a span. -/
def offerEntries (s : Span) : Except Fault (List (Offer K)) := do
  let entries ← t.entriesAt s
  gather (fun e => t.offerEntry (e, s)) entries

/-- What is offered for the cells of two spans that lie side by side. -/
def offerParts (cells : Span → Except Fault (List (Cell K))) (parts : Span × Span) :
    Except Fault (List (Offer K)) := do
  let lefts ← cells parts.1
  let rights ← cells parts.2
  gather t.offerPair (lefts.flatMap fun left => rights.map fun right => (left, right))

/-- What is offered to a span after its entries, given the cells of the shorter spans and which of
the offered cells are retained. -/
def offerRest (select : List (Offer K) → List (Cell K))
    (cells : Span → Except Fault (List (Cell K))) (s : Span) (entries : List (Offer K)) :
    Except Fault (List (Offer K)) := do
  let pairs ← gather (t.offerParts cells) (Parser.splits s)
  let shifted ← gather t.offerShift (select (entries ++ pairs))
  return pairs ++ shifted

/-- The candidates of a span: all that is offered to it, if `select` says which of the offered cells
a span retains. -/
def candidates (select : List (Offer K) → List (Cell K)) (s : Span) :
    Except Fault (List (Offer K)) := do
  let cells (part : Span) : Except Fault (List (Cell K)) :=
    if part.length < s.length then (candidates select part).map select else .ok []
  let entries ← t.offerEntries s
  let rest ← t.offerRest select cells s entries
  return entries ++ rest
termination_by s.length

/-- The cells that a span retains. -/
def cellsAt (select : List (Offer K) → List (Cell K)) (s : Span) : Except Fault (List (Cell K)) :=
  (t.candidates select s).map select

/-- What holds of every offer: its cell can be a cell of the chart, and has the rank that the parser
gives it. -/
structure Offered (o : Offer K) : Prop where
  hasSpan : t.blank.hasSpan o.cell.span = true
  hashable : o.cell.category.hashable = true
  rank : (t.parser.ranking.rank o.cell).result = .ok o.rank

variable {t}

theorem offerCell_eq_ok {c : Except Fault (Cell K)} {os : List (Offer K)}
    (h : t.offerCell c = .ok os) : ∃ o, os = [o] ∧ c = .ok o.cell ∧ t.Offered o := by
  cases c with
  | error fault => simp [offerCell, bind, Except.bind] at h
  | ok c =>
    cases hoffer : t.blank.offer c (t.parser.ranking.rank c) with
    | error fault => simp [offerCell, bind, Except.bind, hoffer] at h
    | ok o =>
      obtain ⟨hspan, hrank, hcategory, rfl⟩ := Chart.offer_eq_ok.1 hoffer
      simp only [offerCell, bind, Except.bind, hoffer, pure, Except.pure, Except.ok.injEq] at h
      exact ⟨o, h.symm, rfl, hspan, hcategory, hrank⟩

theorem offerEntry_eq_ok {e : Entry} {s : Span} {os : List (Offer K)}
    (h : t.offerEntry (e, s) = .ok os) : ∃ o score, os = [o] ∧ t.model.scoreEntry e = .ok score ∧
      o.cell = t.leaf e s score ∧ t.Offered o := by
  obtain ⟨o, hos, hcell, hoffered⟩ := offerCell_eq_ok h
  cases hscore : t.model.scoreEntry e with
  | error fault => simp [hscore, bind, Except.bind] at hcell
  | ok score =>
    simp only [hscore, bind, Except.bind, Cell.ofEntry] at hcell
    split at hcell
    · exact ⟨o, score, hos, rfl, (Except.ok.inj hcell).symm, hoffered⟩
    · simp at hcell

theorem offerResult_eq_ok {children : List (Cell K)} {r : RuleResult} {os : List (Offer K)}
    (h : t.offerResult children r = .ok os) : ∃ o score s, os = [o] ∧
      t.scoreNode (children.map (·.score)) r.rule = .ok score ∧ Cell.spanOf children = .ok s ∧
        o.cell = t.node children r s score ∧ t.Offered o := by
  obtain ⟨o, hos, hcell, hoffered⟩ := offerCell_eq_ok h
  cases hscore : t.scoreNode (children.map (·.score)) r.rule with
  | error fault => simp [hscore, bind, Except.bind] at hcell
  | ok score =>
    cases hs : Cell.spanOf children with
    | error fault => simp [hscore, hs, bind, Except.bind] at hcell
    | ok s =>
      simp only [hscore, hs, bind, Except.bind, Cell.ofChildren] at hcell
      split at hcell
      · exact ⟨o, score, s, hos, rfl, rfl, (Except.ok.inj hcell).symm, hoffered⟩
      · simp at hcell

theorem mem_offerPair {l r : Cell K} {os : List (Offer K)} {o : Offer K}
    (h : t.offerPair (l, r) = .ok os) (ho : o ∈ os) : ∃ results res score,
      (t.parser.grammar.applyBinary l.category r.category).result = .ok results ∧ res ∈ results ∧
        t.scoreNode [l.score, r.score] res.rule = .ok score ∧ l.span.stop = r.span.start ∧
          o.cell = t.node [l, r] res ⟨l.span.start, r.span.stop⟩ score ∧ t.Offered o := by
  cases hresults : (t.parser.grammar.applyBinary l.category r.category).result with
  | error fault => simp [offerPair, hresults, bind, Except.bind] at h
  | ok results =>
    simp only [offerPair, hresults, bind, Except.bind] at h
    obtain ⟨res, hres, os', hstep, ho⟩ := mem_of_gather h ho
    obtain ⟨o', score, s, rfl, hscore, hs, hcell, hoffered⟩ := offerResult_eq_ok hstep
    obtain rfl := List.mem_singleton.1 ho
    obtain ⟨hjoin, rfl⟩ := Cell.spanOf_pair hs
    exact ⟨results, res, score, rfl, hres, hscore, hjoin, hcell, hoffered⟩

theorem mem_offerShift {c : Cell K} {os : List (Offer K)} {o : Offer K}
    (h : t.offerShift c = .ok os) (ho : o ∈ os) : ∃ results res score,
      (t.parser.grammar.applyUnary c.category).result = .ok results ∧ res ∈ results ∧
        t.scoreNode [c.score] res.rule = .ok score ∧ o.cell = t.node [c] res c.span score ∧
          t.Offered o := by
  cases hresults : (t.parser.grammar.applyUnary c.category).result with
  | error fault => simp [offerShift, hresults, bind, Except.bind] at h
  | ok results =>
    simp only [offerShift, hresults, bind, Except.bind] at h
    obtain ⟨res, hres, os', hstep, ho⟩ := mem_of_gather h ho
    obtain ⟨o', score, s, rfl, hscore, hs, hcell, hoffered⟩ := offerResult_eq_ok hstep
    obtain rfl := List.mem_singleton.1 ho
    obtain rfl := Except.ok.inj hs
    exact ⟨results, res, score, rfl, hres, hscore, hcell, hoffered⟩

theorem mem_offerEntries {s : Span} {os : List (Offer K)} {o : Offer K}
    (h : t.offerEntries s = .ok os) (ho : o ∈ os) : ∃ entries e score,
      t.entriesAt s = .ok entries ∧ e ∈ entries ∧ t.model.scoreEntry e = .ok score ∧
        o.cell = t.leaf e s score ∧ t.Offered o := by
  cases hentries : t.entriesAt s with
  | error fault => simp [offerEntries, hentries, bind, Except.bind] at h
  | ok entries =>
    simp only [offerEntries, hentries, bind, Except.bind] at h
    obtain ⟨e, he, os', hstep, ho⟩ := mem_of_gather h ho
    obtain ⟨o', score, rfl, hscore, hcell, hoffered⟩ := offerEntry_eq_ok hstep
    obtain rfl := List.mem_singleton.1 ho
    exact ⟨entries, e, score, rfl, he, hscore, hcell, hoffered⟩

theorem mem_offerParts {cells : Span → Except Fault (List (Cell K))} {parts : Span × Span}
    {os : List (Offer K)} {o : Offer K} (h : t.offerParts cells parts = .ok os) (ho : o ∈ os) :
    ∃ lefts rights l r os', cells parts.1 = .ok lefts ∧ cells parts.2 = .ok rights ∧ l ∈ lefts ∧
      r ∈ rights ∧ t.offerPair (l, r) = .ok os' ∧ o ∈ os' := by
  cases hlefts : cells parts.1 with
  | error fault => simp [offerParts, hlefts, bind, Except.bind] at h
  | ok lefts =>
    cases hrights : cells parts.2 with
    | error fault => simp [offerParts, hlefts, hrights, bind, Except.bind] at h
    | ok rights =>
      simp only [offerParts, hlefts, hrights, bind, Except.bind] at h
      obtain ⟨⟨l, r⟩, hpair, os', hstep, ho⟩ := mem_of_gather h ho
      obtain ⟨l', hl, hpair⟩ := List.mem_flatMap.1 hpair
      obtain ⟨r', hr, heq⟩ := List.mem_map.1 hpair
      obtain ⟨rfl, rfl⟩ := Prod.mk.inj heq
      exact ⟨lefts, rights, l', r', os', rfl, rfl, hl, hr, hstep, ho⟩

/-- Offers for the parts of a span are at that span, if the cells of each part are at the part. -/
theorem span_of_mem_offerParts {cells : Span → Except Fault (List (Cell K))} {s : Span}
    {parts : Span × Span} {os : List (Offer K)} {o : Offer K} (hparts : parts ∈ Parser.splits s)
    (hcells : ∀ part, part.length < s.length → ∀ cs, cells part = .ok cs → ∀ c ∈ cs, c.span = part)
    (h : t.offerParts cells parts = .ok os) (ho : o ∈ os) : o.cell.span = s := by
  obtain ⟨lefts, rights, l, r, os', hlefts, hrights, hl, hr, hpair, ho⟩ := mem_offerParts h ho
  obtain ⟨_, _, _, -, -, -, -, hcell, -⟩ := mem_offerPair hpair ho
  obtain ⟨hstart, -, -, -, hstop⟩ := Parser.splits_eq hparts
  obtain ⟨hleft, hright⟩ := Parser.length_lt_of_mem_splits hparts
  rw [hcell, node, Cell.span, hcells _ hleft _ hlefts l hl, hcells _ hright _ hrights r hr, hstart,
    hstop]

theorem span_of_mem_offerEntries {s : Span} {os : List (Offer K)} {o : Offer K}
    (h : t.offerEntries s = .ok os) (ho : o ∈ os) : o.cell.span = s := by
  obtain ⟨_, _, _, -, -, -, hcell, -⟩ := mem_offerEntries h ho
  rw [hcell, leaf, Cell.span]

theorem offerRest_eq_ok {select : List (Offer K) → List (Cell K)}
    {cells : Span → Except Fault (List (Cell K))} {s : Span} {entries rest : List (Offer K)}
    (h : t.offerRest select cells s entries = .ok rest) : ∃ pairs shifted,
      gather (t.offerParts cells) (Parser.splits s) = .ok pairs ∧
        gather t.offerShift (select (entries ++ pairs)) = .ok shifted ∧
          rest = pairs ++ shifted := by
  rw [offerRest] at h
  cases hpairs : gather (t.offerParts cells) (Parser.splits s) with
  | error fault => simp [hpairs, bind, Except.bind] at h
  | ok pairs =>
    cases hshifted : gather t.offerShift (select (entries ++ pairs)) with
    | error fault => simp [hpairs, hshifted, bind, Except.bind] at h
    | ok shifted =>
      simp only [hpairs, hshifted, bind, Except.bind, pure, Except.pure, Except.ok.injEq] at h
      exact ⟨pairs, shifted, rfl, hshifted, h.symm⟩

/-- What is offered to a span is at that span, if the cells of each part are at the part. -/
theorem span_of_mem_offerRest {select : List (Offer K) → List (Cell K)} (hselect : Selects select)
    {cells : Span → Except Fault (List (Cell K))} {s : Span} {entries rest : List (Offer K)}
    (hcells : ∀ part, part.length < s.length → ∀ cs, cells part = .ok cs → ∀ c ∈ cs, c.span = part)
    (hentries : ∀ o ∈ entries, o.cell.span = s)
    (h : t.offerRest select cells s entries = .ok rest) : ∀ o ∈ rest, o.cell.span = s := by
  obtain ⟨pairs, shifted, hpairs, hshifted, rfl⟩ := offerRest_eq_ok h
  have hspan : ∀ o ∈ entries ++ pairs, o.cell.span = s := by
    intro o ho
    rcases List.mem_append.1 ho with ho | ho
    · exact hentries o ho
    · obtain ⟨parts, hparts, os, hos, ho⟩ := mem_of_gather hpairs ho
      exact span_of_mem_offerParts hparts hcells hos ho
  intro o ho
  rcases List.mem_append.1 ho with ho | ho
  · exact hspan o (List.mem_append_right _ ho)
  · obtain ⟨c, hc, os, hos, ho⟩ := mem_of_gather hshifted ho
    obtain ⟨_, _, _, -, -, -, hcell, -⟩ := mem_offerShift hos ho
    obtain ⟨a, ha, rfl⟩ := hselect.subset _ c hc
    rw [hcell, node, Cell.span]
    exact hspan a ha

variable (t)

theorem offerRest_congr {select : List (Offer K) → List (Cell K)}
    {cells cells' : Span → Except Fault (List (Cell K))} {s : Span}
    (h : ∀ parts ∈ Parser.splits s, cells parts.1 = cells' parts.1 ∧ cells parts.2 = cells' parts.2)
    (entries : List (Offer K)) :
    t.offerRest select cells s entries = t.offerRest select cells' s entries := by
  have hparts : gather (t.offerParts cells) (Parser.splits s) =
      gather (t.offerParts cells') (Parser.splits s) := by
    refine gather_congr ?_
    intro parts hparts
    rw [offerParts, offerParts, (h parts hparts).1, (h parts hparts).2]
  rw [offerRest, offerRest, hparts]

/-- The candidates of a span are its entries, the results on the retained cells of the spans that it
splits into, and the results on the cells that are retained of these. -/
theorem candidates_eq (select : List (Offer K) → List (Cell K)) (s : Span) :
    t.candidates select s = (t.offerEntries s).bind fun entries =>
      (t.offerRest select (t.cellsAt select) s entries).map fun rest => entries ++ rest := by
  rw [candidates]
  cases t.offerEntries s with
  | error fault => rfl
  | ok entries =>
    have hrest : t.offerRest select (fun part => if part.length < s.length then
        (t.candidates select part).map select else .ok []) s entries =
          t.offerRest select (t.cellsAt select) s entries := by
      refine t.offerRest_congr (fun parts hparts => ?_) entries
      obtain ⟨hleft, hright⟩ := Parser.length_lt_of_mem_splits hparts
      exact ⟨if_pos hleft, if_pos hright⟩
    simp only [bind, Except.bind, hrest]
    cases t.offerRest select (t.cellsAt select) s entries <;> rfl

end Sentence

end Categorial
