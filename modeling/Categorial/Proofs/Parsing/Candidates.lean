import Categorial.Proofs.Lexicon.View
import Categorial.Proofs.Parsing.Schedule

/-!
The candidates of a span, one by one: an entry of its tokens, a result on retained cells of its two
parts, or a result on a cell that is retained of these. Which of the offered cells are retained is a
parameter; all that is asked of it is that it picks offered cells, and no step twice. Main
statements: every candidate is of one of these kinds, and every entry and every such result is
offered.
-/

namespace Categorial.Sentence

variable {K : Type} {t : Sentence K} {select : List (Offer K) → List (Cell K)}

/-- Chosen cells that are one step are one cell. -/
theorem Selects.eq_of_sameStep (hselect : Selects select) {os : List (Offer K)} {c d : Cell K}
    (hc : c ∈ select os) (hd : d ∈ select os) (hsame : c.sameStep d = true) : c = d :=
  eq_of_pairwise Cell.sameStep_comm (hselect.apart os) hc hd hsame

variable [Scalar K]

/-- The candidates of a span: the entries and what is offered after them. -/
theorem candidates_eq_ok {s : Span} {os : List (Offer K)} (h : t.candidates select s = .ok os) :
    ∃ entries rest, t.offerEntries s = .ok entries ∧
      t.offerRest select (t.cellsAt select) s entries = .ok rest ∧ os = entries ++ rest := by
  rw [candidates_eq] at h
  cases hentries : t.offerEntries s with
  | error fault => simp [hentries, Except.bind] at h
  | ok entries =>
    cases hrest : t.offerRest select (t.cellsAt select) s entries with
    | error fault => simp [hentries, hrest, Except.bind, Except.map] at h
    | ok rest =>
      simp only [hentries, hrest, Except.bind, Except.map, Except.ok.injEq] at h
      exact ⟨entries, rest, rfl, hrest, h.symm⟩

theorem mem_cellsAt (hselect : Selects select) {s : Span} {cs : List (Cell K)} {c : Cell K}
    (h : t.cellsAt select s = .ok cs) (hc : c ∈ cs) :
    ∃ os, t.candidates select s = .ok os ∧ cs = select os ∧ ∃ o ∈ os, o.cell = c := by
  rw [cellsAt] at h
  cases hos : t.candidates select s with
  | error fault => simp [hos, Except.map] at h
  | ok os =>
    rw [hos, Except.map, Except.ok.injEq] at h
    exact ⟨os, rfl, h.symm, hselect.subset os c (h ▸ hc)⟩

/-- The candidates of a span are at that span. -/
theorem span_of_mem_candidates (hselect : Selects select) {s : Span} {os : List (Offer K)}
    (h : t.candidates select s = .ok os) {o : Offer K} (ho : o ∈ os) : o.cell.span = s := by
  induction hn : s.length using Nat.strongRecOn generalizing s os o with
  | _ n ih =>
    obtain ⟨entries, rest, hentries, hrest, rfl⟩ := candidates_eq_ok h
    have hspan : ∀ o ∈ entries, o.cell.span = s := fun o ho => span_of_mem_offerEntries hentries ho
    have hcells : ∀ part, part.length < s.length → ∀ cs, t.cellsAt select part = .ok cs →
        ∀ c ∈ cs, c.span = part := by
      intro part hlt cs hcs c hc
      obtain ⟨os, hos, -, o, ho, rfl⟩ := mem_cellsAt hselect hcs hc
      exact ih _ (hn ▸ hlt) hos ho rfl
    rcases List.mem_append.1 ho with ho | ho
    · exact hspan o ho
    · exact span_of_mem_offerRest hselect hcells hspan hrest o ho

theorem span_of_mem_cellsAt (hselect : Selects select) {s : Span} {cs : List (Cell K)} {c : Cell K}
    (h : t.cellsAt select s = .ok cs) (hc : c ∈ cs) : c.span = s := by
  obtain ⟨os, hos, -, o, ho, rfl⟩ := mem_cellsAt hselect h hc
  exact span_of_mem_candidates hselect hos ho

/-- What the candidates of a span are. -/
inductive Candidate (t : Sentence K) (select : List (Offer K) → List (Cell K)) (s : Span) :
    Cell K → Prop where
  /-- An entry of the tokens of the span, or one that skips its only token. -/
  | entry {entries : List Entry} {e : Entry} {score : K} (hentries : t.entriesAt s = .ok entries)
      (he : e ∈ entries) (hscore : t.model.scoreEntry e = .ok score) :
      Candidate t select s (t.leaf e s score)
  /-- A result on retained cells of the two parts of the span. -/
  | pair {parts : Span × Span} {lefts rights : List (Cell K)} {l r : Cell K}
      {results : List RuleResult} {res : RuleResult} {score : K} (hparts : parts ∈ Parser.splits s)
      (hlefts : t.cellsAt select parts.1 = .ok lefts)
      (hrights : t.cellsAt select parts.2 = .ok rights) (hl : l ∈ lefts) (hr : r ∈ rights)
      (hresults : (t.parser.grammar.applyBinary l.category r.category).result = .ok results)
      (hres : res ∈ results) (hscore : t.scoreNode [l.score, r.score] res.rule = .ok score) :
      Candidate t select s (t.node [l, r] res s score)
  /-- A result on a cell that is retained of the entries and of the results on two parts. -/
  | shift {entries pairs : List (Offer K)} {c : Cell K} {results : List RuleResult}
      {res : RuleResult} {score : K} (hentries : t.offerEntries s = .ok entries)
      (hpairs : gather (t.offerParts (t.cellsAt select)) (Parser.splits s) = .ok pairs)
      (hc : c ∈ select (entries ++ pairs)) (hspan : c.span = s)
      (hresults : (t.parser.grammar.applyUnary c.category).result = .ok results)
      (hres : res ∈ results) (hscore : t.scoreNode [c.score] res.rule = .ok score) :
      Candidate t select s (t.node [c] res s score)

/-- What is offered before the rules for one category are applied. -/
theorem candidate_of_mem_first (hselect : Selects select) {s : Span}
    {entries pairs : List (Offer K)}
    (hentries : t.offerEntries s = .ok entries)
    (hpairs : gather (t.offerParts (t.cellsAt select)) (Parser.splits s) = .ok pairs) {o : Offer K}
    (ho : o ∈ entries ++ pairs) :
    t.Candidate select s o.cell ∧ o.cell.children.length ≠ 1 ∧ t.Offered o := by
  rcases List.mem_append.1 ho with ho | ho
  · obtain ⟨es, e, score, hes, he, hscore, hcell, hoffered⟩ := mem_offerEntries hentries ho
    rw [hcell]
    exact ⟨.entry hes he hscore, by simp, hoffered⟩
  · obtain ⟨parts, hparts, os, hos, ho⟩ := mem_of_gather hpairs ho
    obtain ⟨lefts, rights, l, r, os', hlefts, hrights, hl, hr, hpair, ho⟩ := mem_offerParts hos ho
    obtain ⟨results, res, score, hresults, hres, hscore, -, hcell, hoffered⟩ :=
      mem_offerPair hpair ho
    obtain ⟨hstart, -, -, -, hstop⟩ := Parser.splits_eq hparts
    rw [span_of_mem_cellsAt hselect hlefts hl, span_of_mem_cellsAt hselect hrights hr, hstart,
      hstop] at hcell
    rw [hcell]
    exact ⟨.pair hparts hlefts hrights hl hr hresults hres hscore, by simp, hoffered⟩

/-- Every candidate is an entry or a result. -/
theorem candidate_of_mem (hselect : Selects select) {s : Span} {os : List (Offer K)}
    (h : t.candidates select s = .ok os) {o : Offer K} (ho : o ∈ os) :
    t.Candidate select s o.cell ∧ t.Offered o := by
  obtain ⟨entries, rest, hentries, hrest, rfl⟩ := candidates_eq_ok h
  obtain ⟨pairs, shifted, hpairs, hshifted, rfl⟩ := offerRest_eq_ok hrest
  rw [← List.append_assoc] at h ho
  rcases List.mem_append.1 ho with hfirst | hlast
  · obtain ⟨hcandidate, -, hoffered⟩ := candidate_of_mem_first hselect hentries hpairs hfirst
    exact ⟨hcandidate, hoffered⟩
  · obtain ⟨c, hc, os, hos, hlast⟩ := mem_of_gather hshifted hlast
    obtain ⟨results, res, score, hresults, hres, hscore, hcell, hoffered⟩ :=
      mem_offerShift hos hlast
    have hspan : c.span = s := by
      rw [← span_of_mem_candidates hselect h ho, hcell]
      rfl
    rw [hspan] at hcell
    rw [hcell]
    exact ⟨.shift hentries hpairs hc hspan hresults hres hscore, hoffered⟩

/-- The categories of retained cells can be keys. -/
theorem hashable_of_mem_cellsAt (hselect : Selects select) {s : Span} {cs : List (Cell K)}
    {c : Cell K} (h : t.cellsAt select s = .ok cs) (hc : c ∈ cs) : c.category.hashable = true := by
  obtain ⟨os, hos, -, o, ho, rfl⟩ := mem_cellsAt hselect h hc
  exact (candidate_of_mem hselect hos ho).2.hashable

/-- Every entry is offered. -/
theorem exists_offer_entry {s : Span} {os : List (Offer K)} {entries : List Entry} {e : Entry}
    (h : t.offerEntries s = .ok os) (hentries : t.entriesAt s = .ok entries) (he : e ∈ entries) :
    ∃ o ∈ os, ∃ score, t.model.scoreEntry e = .ok score ∧ o.cell = t.leaf e s score := by
  rw [offerEntries_eq hentries] at h
  obtain ⟨os', hos', hsub⟩ := subset_of_gather h (List.mem_map_of_mem he)
  obtain ⟨o, score, rfl, hscore, hcell, -⟩ := offerEntry_eq_ok hos'
  exact ⟨o, hsub List.mem_cons_self, score, hscore, hcell⟩

theorem exists_offerPair {cells : Span → Except Fault (List (Cell K))} {s : Span}
    {pairs : List (Offer K)} (h : gather (t.offerParts cells) (Parser.splits s) = .ok pairs)
    {parts : Span × Span} (hparts : parts ∈ Parser.splits s) {lefts rights : List (Cell K)}
    (hlefts : cells parts.1 = .ok lefts) (hrights : cells parts.2 = .ok rights) {l r : Cell K}
    (hl : l ∈ lefts) (hr : r ∈ rights) : ∃ os, t.offerPair (l, r) = .ok os ∧ os ⊆ pairs := by
  obtain ⟨os, hos, hsub⟩ := subset_of_gather h hparts
  simp only [offerParts, hlefts, hrights, bind, Except.bind] at hos
  have hpair : (l, r) ∈ lefts.flatMap fun left => rights.map fun right => (left, right) :=
    List.mem_flatMap.2 ⟨l, hl, List.mem_map_of_mem hr⟩
  obtain ⟨os', hos', hsub'⟩ := subset_of_gather hos hpair
  exact ⟨os', hos', fun o ho => hsub (hsub' ho)⟩

/-- The rules give their results on the cells of a pair that was offered. -/
theorem applyBinary_of_offerPair {l r : Cell K} {os : List (Offer K)}
    (h : t.offerPair (l, r) = .ok os) :
    ∃ results, (t.parser.grammar.applyBinary l.category r.category).result = .ok results := by
  rw [offerPair] at h
  obtain ⟨results, hresults, -⟩ := bind_eq_ok.1 h
  exact ⟨results, hresults⟩

theorem applyUnary_of_offerShift {c : Cell K} {os : List (Offer K)}
    (h : t.offerShift c = .ok os) :
    ∃ results, (t.parser.grammar.applyUnary c.category).result = .ok results := by
  rw [offerShift] at h
  obtain ⟨results, hresults, -⟩ := bind_eq_ok.1 h
  exact ⟨results, hresults⟩

/-- Every result on cells of the two parts of a span is offered. -/
theorem exists_offer_pair {cells : Span → Except Fault (List (Cell K))} {s : Span}
    {pairs : List (Offer K)} (h : gather (t.offerParts cells) (Parser.splits s) = .ok pairs)
    {parts : Span × Span} (hparts : parts ∈ Parser.splits s) {lefts rights : List (Cell K)}
    (hlefts : cells parts.1 = .ok lefts) (hrights : cells parts.2 = .ok rights) {l r : Cell K}
    (hl : l ∈ lefts) (hr : r ∈ rights) {results : List RuleResult} {res : RuleResult}
    (hresults : (t.parser.grammar.applyBinary l.category r.category).result = .ok results)
    (hres : res ∈ results) : ∃ o ∈ pairs, ∃ score,
      t.scoreNode [l.score, r.score] res.rule = .ok score ∧
        o.cell = t.node [l, r] res ⟨l.span.start, r.span.stop⟩ score := by
  obtain ⟨os, hos, hsub⟩ := exists_offerPair h hparts hlefts hrights hl hr
  simp only [offerPair, hresults, bind, Except.bind] at hos
  obtain ⟨os', hos', hsub'⟩ := subset_of_gather hos hres
  obtain ⟨o, score, part, rfl, hscore, hpart, hcell, -⟩ := offerResult_eq_ok hos'
  obtain ⟨-, rfl⟩ := Cell.spanOf_pair hpart
  exact ⟨o, hsub (hsub' List.mem_cons_self), score, hscore, hcell⟩

/-- Every result on one of some cells is offered. -/
theorem exists_offer_shift {cs : List (Cell K)} {shifted : List (Offer K)}
    (h : gather t.offerShift cs = .ok shifted) {c : Cell K} (hc : c ∈ cs)
    {results : List RuleResult} {res : RuleResult}
    (hresults : (t.parser.grammar.applyUnary c.category).result = .ok results)
    (hres : res ∈ results) : ∃ o ∈ shifted, ∃ score,
      t.scoreNode [c.score] res.rule = .ok score ∧ o.cell = t.node [c] res c.span score := by
  obtain ⟨os, hos, hsub⟩ := subset_of_gather h hc
  simp only [offerShift, hresults, bind, Except.bind] at hos
  obtain ⟨os', hos', hsub'⟩ := subset_of_gather hos hres
  obtain ⟨o, score, s, rfl, hscore, hs, hcell, -⟩ := offerResult_eq_ok hos'
  obtain rfl := Except.ok.inj hs
  exact ⟨o, hsub (hsub' List.mem_cons_self), score, hscore, hcell⟩

end Categorial.Sentence
