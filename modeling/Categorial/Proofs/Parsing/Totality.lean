import Categorial.Proofs.Chart.Removal
import Categorial.Proofs.Lexicon.Reads
import Categorial.Proofs.Parsing.Outcome
import Categorial.Proofs.Parsing.Soundness
import Categorial.Proofs.Rule.Schema

/-!
Parses that end. What a parse asks of its surroundings is that scorers give scores that can be
added, that the scoring function of its cells gives scores, and that entries can be keys; rules may
fail, and give results that refuse to be keys. Of the other faults, those of spans that a chart does
not have, of children that do not lie side by side, of categories that cannot be keys, and of steps
that a table does not have are ruled out by what is offered to a chart; what is left is a result of
a rule that refuses to be a key with a fault that is not of a type. Main statement: a parse with
floating-point scores ends exactly if no rule gives such a result on the cells that are retained,
whatever its rules, its entries, its tokens and the order of its spans are.
-/

namespace Categorial

namespace Scalar

variable {K : Type} [Scalar K] {P : K → Prop}

/-- Scores that zero is one of, that can be added to such scores again, and that can be shown. -/
structure Closed (P : K → Prop) : Prop where
  zero : P 0
  plus : ∀ {x y}, P x → P y → ∃ z, Scalar.plus x y = .ok z ∧ P z
  weight : ∀ {x}, P x → ∃ w, Scalar.weight x = .ok w

/-- Such scores can be added up. -/
theorem Closed.total (h : Closed P) {xs : List (Except Fault K)}
    (hxs : ∀ x ∈ xs, ∃ y, x = .ok y ∧ P y) : ∃ z, Scalar.total xs = .ok z ∧ P z := by
  suffices hall : ∀ acc, P acc → ∃ z,
      xs.foldlM (fun acc (x : Except Fault K) => do Scalar.plus acc (← x)) acc = .ok z ∧ P z from
    hall 0 h.zero
  induction xs with
  | nil => exact fun acc hacc => ⟨acc, rfl, hacc⟩
  | cons x xs ih =>
    intro acc hacc
    obtain ⟨y, rfl, hy⟩ := hxs x List.mem_cons_self
    obtain ⟨z, hz, hPz⟩ := h.plus hacc hy
    obtain ⟨w, hw, hPw⟩ := ih (fun x hx => hxs x (List.mem_cons_of_mem _ hx)) z hPz
    refine ⟨w, ?_, hPw⟩
    rw [List.foldlM_cons]
    change (Scalar.plus acc y).bind _ = _
    rw [hz]
    exact hw

end Scalar

/-- Whether a number is a floating-point value, or the zero that sums start from. -/
def Number.IsDouble (x : Number) : Prop :=
  x.worth = .inl 0 ∨ ∃ y, x.worth = .inr y

theorem Number.IsDouble.hasFloat {x : Number} (h : x.IsDouble) : x.hasFloat = true := by
  rw [Number.hasFloat]
  rcases h with h | ⟨y, h⟩ <;> rw [h]
  rfl

/-- Floating-point values can always be added, infinite and undefined ones too. -/
theorem Number.closed_isDouble : Scalar.Closed Number.IsDouble where
  zero := Or.inl rfl
  plus {x y} hx hy := by
    have hcombinable : x.combinable y = true := by
      rw [Number.combinable]
      split
      · rfl
      · rw [hx.hasFloat, hy.hasFloat]
        rfl
    refine ⟨x + y, if_pos hcombinable, ?_⟩
    change (Number.combine _ _ x y).IsDouble
    rw [Number.combine]
    split
    · rename_i a b ha hb
      -- the sum of two integers is the sum of two zeros
      rcases hx with hx | ⟨z, hx⟩
      · rcases hy with hy | ⟨z, hy⟩
        · rw [ha, Sum.inl.injEq] at hx
          rw [hb, Sum.inl.injEq] at hy
          exact Or.inl (by rw [hx, hy]; rfl)
        · rw [hb] at hy
          cases hy
      · rw [ha] at hx
        cases hx
    · exact Or.inr ⟨_, rfl⟩
  weight {x} hx := by
    change ∃ w, x.toFloat.map Number.real = .ok w
    rw [Number.toFloat]
    rcases hx with hx | ⟨y, hx⟩ <;> rw [hx]
    · exact ⟨_, rfl⟩
    · exact ⟨_, rfl⟩

namespace Sentence

variable {K : Type} [Scalar K] {t : Sentence K} {P : K → Prop}

/-- What a parse takes from its surroundings without a fault: entries and skipped tokens that can be
keys, scores of entries for some tokens and of rules, and ranks. -/
structure Supplied (t : Sentence K) (P : K → Prop) : Prop where
  skipped : t.parser.config.skipsWords = true → t.parser.skipped.hashable = true
  entries : ∀ e ∈ t.view.entries, e.category.hashable = true
  lexical : ∀ e, e.tokens ≠ [] → ∃ x, t.model.scoreEntry e = .ok x ∧ P x
  rules : ∀ rule, ∃ x, t.model.scoreRule rule = .ok x ∧ P x
  rank : ∀ c, ∃ r, (t.parser.ranking.rank c).result = .ok r

theorem Supplied.entriesAt_ok (h : t.Supplied P) (s : Span) :
    ∃ entries, t.entriesAt s = .ok entries := by
  cases hskips : t.parser.config.skipsWords with
  | false => exact ⟨_, entriesAt_of_not_skips hskips s⟩
  | true => exact ⟨_, entriesAt_of_skips hskips (h.skipped hskips) s⟩

/-- The entries of a span are for some tokens, and can be keys. -/
theorem Supplied.entry (h : t.Supplied P) {s : Span} (hs : t.blank.hasSpan s = true)
    {entries : List Entry} (hentries : t.entriesAt s = .ok entries) {e : Entry}
    (he : e ∈ entries) : e.tokens ≠ [] ∧ e.category.hashable = true := by
  obtain ⟨hstart, hlt, hstop⟩ := hasSpan_iff.1 hs
  have htokens : Parser.tokensOf t.tokens s ≠ [] := by
    intro hnil
    have hlength := Parser.length_tokensOf hstart hstop
    rw [hnil, List.length_nil, Span.length] at hlength
    omega
  rcases (mem_entriesAt hentries).1 he with he | ⟨hskips, -, rfl⟩
  · refine ⟨LexiconView.tokens_of_mem_get _ he ▸ htokens, h.entries e ?_⟩
    rw [LexiconView.get_eq_filter] at he
    exact (List.mem_filter.1 he).1
  · exact ⟨htokens, h.skipped hskips⟩

theorem Supplied.scoreNode_ok (h : t.Supplied P) (hP : Scalar.Closed P) {scores : List K}
    (hscores : ∀ x ∈ scores, P x) (rule : RuleName) :
    ∃ y, t.scoreNode scores rule = .ok y ∧ P y := by
  have hall : ∀ x ∈ scores.map Except.ok, ∃ y, x = (.ok y : Except Fault K) ∧ P y := by
    intro x hx
    obtain ⟨y, hy, rfl⟩ := List.mem_map.1 hx
    exact ⟨y, rfl, hscores y hy⟩
  obtain ⟨x, hx, hPx⟩ := hP.total hall
  obtain ⟨y, hy, hPy⟩ := h.rules rule
  obtain ⟨z, hz, hPz⟩ := hP.plus hPx hPy
  refine ⟨z, ?_, hPz⟩
  rw [scoreNode, hx, hy]
  exact hz

/-- The scores of derivations are of the kind that scorers give. -/
theorem Supplied.score (h : t.Supplied P) (hP : Scalar.Closed P) {c : Cell K} (hc : t.Derives c) :
    P c.score := by
  induction hc with
  | entry hs hentries he hscore =>
    obtain ⟨x, hx, hPx⟩ := h.lexical _ (h.entry hs hentries he).1
    rw [hscore, Except.ok.injEq] at hx
    rwa [leaf_score, hx]
  | @pair l r _ res _ _ _ _ _ _ hscore ihl ihr =>
    have hscores : ∀ x ∈ [l.score, r.score], P x := by simp [ihl, ihr]
    obtain ⟨y, hy, hPy⟩ := h.scoreNode_ok hP hscores res.rule
    rw [hscore, Except.ok.injEq] at hy
    rwa [node_score, hy]
  | @shift c _ res _ _ _ _ _ hscore ih =>
    have hscores : ∀ x ∈ [c.score], P x := by simp [ih]
    obtain ⟨y, hy, hPy⟩ := h.scoreNode_ok hP hscores res.rule
    rw [hscore, Except.ok.injEq] at hy
    rwa [node_score, hy]

/-- A cell at a span of the chart whose category can be a key is offered. -/
theorem Supplied.offerCell_ok (h : t.Supplied P) {c : Cell K}
    (hs : t.blank.hasSpan c.span = true) (hkey : c.category.hashable = true) :
    ∃ os, t.offerCell (.ok c) = .ok os := by
  obtain ⟨r, hr⟩ := h.rank c
  have hoffer : t.blank.offer c (t.parser.ranking.rank c) = .ok ⟨r, c⟩ :=
    Chart.offer_eq_ok.2 ⟨hs, hr, hkey, rfl⟩
  exact ⟨[⟨r, c⟩], by simp [offerCell, hoffer, bind, Except.bind, pure, Except.pure]⟩

theorem Supplied.offerEntries_ok (h : t.Supplied P) {s : Span} (hs : t.blank.hasSpan s = true) :
    ∃ os, t.offerEntries s = .ok os := by
  obtain ⟨entries, hentries⟩ := h.entriesAt_ok s
  rw [offerEntries_eq hentries]
  refine gather_ok fun placed hplaced => ?_
  obtain ⟨e, he, rfl⟩ := List.mem_map.1 hplaced
  obtain ⟨htokens, hkey⟩ := h.entry hs hentries he
  obtain ⟨x, hx, -⟩ := h.lexical e htokens
  have hlt := (hasSpan_iff.1 hs).2.1
  obtain ⟨os, hos⟩ := h.offerCell_ok (c := t.leaf e s x) hs hkey
  refine ⟨os, ?_⟩
  rw [offerEntry, hx]
  simp only [bind, Except.bind, Cell.ofEntry, if_pos hlt]
  exact hos

/-- A result that can be a key is offered for children that lie side by side. -/
theorem Supplied.offerResult_ok (h : t.Supplied P) (hP : Scalar.Closed P) {children : List (Cell K)}
    {s : Span} {r : RuleResult} (hchildren : ∀ c ∈ children, t.Derives c)
    (hspan : Cell.spanOf children = .ok s) (hs : t.blank.hasSpan s = true)
    (hkey : r.category.hashable = true) : ∃ os, t.offerResult children r = .ok os := by
  have hscores : ∀ x ∈ children.map Cell.score, P x := by
    intro x hx
    obtain ⟨c, hc, rfl⟩ := List.mem_map.1 hx
    exact h.score hP (hchildren c hc)
  obtain ⟨x, hx, -⟩ := h.scoreNode_ok hP hscores r.rule
  have hlt := (hasSpan_iff.1 hs).2.1
  obtain ⟨os, hos⟩ := h.offerCell_ok (c := t.node children r s x) hs hkey
  refine ⟨os, ?_⟩
  rw [offerResult, hx, hspan]
  simp only [bind, Except.bind, Cell.ofChildren, hspan, if_pos hlt]
  exact hos

/-- The faults with which results of rules on retained cells refuse to be keys: on cells of the two
parts of a span, or on a cell that is retained of the entries of a span and of the results on its
parts. -/
inductive Strays (t : Sentence K) (fault : Fault) : Prop where
  | pair {s : Span} (hs : t.blank.hasSpan s = true) {parts : Span × Span}
      (hparts : parts ∈ Parser.splits s) {lefts rights : List (Cell K)}
      (hlefts : t.cellsAt t.retained parts.1 = .ok lefts)
      (hrights : t.cellsAt t.retained parts.2 = .ok rights) {l r : Cell K} (hl : l ∈ lefts)
      (hr : r ∈ rights) {rule : BinaryRule} (hrule : rule ∈ t.parser.grammar.binary)
      (hstray : Grammar.Strays (rule.apply l.category r.category) fault)
  | shift {s : Span} (hs : t.blank.hasSpan s = true) {entries pairs : List (Offer K)}
      (hentries : t.offerEntries s = .ok entries)
      (hpairs : gather (t.offerParts (t.cellsAt t.retained)) (Parser.splits s) = .ok pairs)
      {c : Cell K} (hc : c ∈ t.retained (entries ++ pairs)) {rule : UnaryRule}
      (hrule : rule ∈ t.parser.grammar.unary)
      (hstray : Grammar.Strays (rule.apply c.category) fault)

/-- If the candidates of every span can be found, no result refuses with such a fault. -/
theorem not_strays_of_candidates
    (h : ∀ s, t.blank.hasSpan s = true → ∃ os, t.candidates t.retained s = .ok os)
    (fault : Fault) : ¬ t.Strays fault := by
  rintro (⟨hs, hparts, hlefts, hrights, hl, hr, hrule, hstray⟩ |
    ⟨hs, hentries, hpairs, hc, hrule, hstray⟩)
  · obtain ⟨os, hos⟩ := h _ hs
    obtain ⟨entries, rest, -, hrest, -⟩ := candidates_eq_ok hos
    obtain ⟨pairs, shifted, hpairs, -, -⟩ := offerRest_eq_ok hrest
    obtain ⟨os', hpair, -⟩ := exists_offerPair hpairs hparts hlefts hrights hl hr
    have hregular := Grammar.applyBinary_ok_iff.1 (applyBinary_of_offerPair hpair) _ hrule
    exact Grammar.regular_iff.1 hregular fault hstray
  · obtain ⟨os, hos⟩ := h _ hs
    obtain ⟨entries', rest, hentries', hrest, -⟩ := candidates_eq_ok hos
    obtain ⟨pairs', shifted, hpairs', hshifted, -⟩ := offerRest_eq_ok hrest
    obtain rfl := Except.ok.inj (hentries'.symm.trans hentries)
    obtain rfl := Except.ok.inj (hpairs'.symm.trans hpairs)
    obtain ⟨os', hshift, -⟩ := subset_of_gather hshifted hc
    have hregular := Grammar.applyUnary_ok_iff.1 (applyUnary_of_offerShift hshift) _ hrule
    exact Grammar.regular_iff.1 hregular fault hstray

/-- The only fault of combining two derivations that lie side by side is that of a rule. -/
theorem Supplied.strays_of_offerPair (h : t.Supplied P) (hP : Scalar.Closed P) {l r : Cell K}
    (hl : t.Derives l) (hr : t.Derives r) (hjoin : l.span.stop = r.span.start) {fault : Fault}
    (hfault : t.offerPair (l, r) = .error fault) :
    ∃ rule ∈ t.parser.grammar.binary,
      Grammar.Strays (rule.apply l.category r.category) fault := by
  rcases bind_eq_error.1 hfault with happly | ⟨results, hresults, hgather⟩
  · exact Grammar.exists_of_applyBinary_error happly
  · obtain ⟨res, hres, hoffer⟩ := exists_of_gather_error hgather
    have hspan : Cell.spanOf [l, r] = .ok ⟨l.span.start, r.span.stop⟩ := by
      rw [Cell.spanOf, Cell.joinSpans, if_pos hjoin]
      rfl
    have hs : t.blank.hasSpan ⟨l.span.start, r.span.stop⟩ = true := by
      have hl := hasSpan_iff.1 hl.hasSpan
      have hr := hasSpan_iff.1 hr.hasSpan
      rw [hasSpan_iff]
      dsimp only
      omega
    have hchildren : ∀ c ∈ [l, r], t.Derives c := by simp [hl, hr]
    obtain ⟨os, hos⟩ :=
      h.offerResult_ok hP hchildren hspan hs ((Grammar.mem_applyBinary hresults).1 hres).2
    rw [hoffer] at hos
    cases hos

theorem Supplied.strays_of_offerShift (h : t.Supplied P) (hP : Scalar.Closed P) {c : Cell K}
    (hc : t.Derives c) {fault : Fault} (hfault : t.offerShift c = .error fault) :
    ∃ rule ∈ t.parser.grammar.unary, Grammar.Strays (rule.apply c.category) fault := by
  rcases bind_eq_error.1 hfault with happly | ⟨results, hresults, hgather⟩
  · exact Grammar.exists_of_applyUnary_error happly
  · obtain ⟨res, hres, hoffer⟩ := exists_of_gather_error hgather
    obtain ⟨os, hos⟩ := h.offerResult_ok hP (List.forall_mem_singleton.2 hc) (s := c.span) rfl
      hc.hasSpan ((Grammar.mem_applyUnary hresults).1 hres).2
    rw [hoffer] at hos
    cases hos

/-- A fault of the cells of the parts of a span is that of finding the cells of one of them, or of
combining two of them. -/
theorem exists_of_offerParts_error {cells : Span → Except Fault (List (Cell K))}
    {parts : Span × Span} {fault : Fault} (h : t.offerParts cells parts = .error fault) :
    cells parts.1 = .error fault ∨ cells parts.2 = .error fault ∨
      ∃ lefts rights, cells parts.1 = .ok lefts ∧ cells parts.2 = .ok rights ∧
        ∃ l ∈ lefts, ∃ r ∈ rights, t.offerPair (l, r) = .error fault := by
  rcases bind_eq_error.1 h with hleft | ⟨lefts, hlefts, h⟩
  · exact Or.inl hleft
  · rcases bind_eq_error.1 h with hright | ⟨rights, hrights, h⟩
    · exact Or.inr (Or.inl hright)
    · obtain ⟨⟨l, r⟩, hpair, hfault⟩ := exists_of_gather_error h
      obtain ⟨l', hl, hpair⟩ := List.mem_flatMap.1 hpair
      obtain ⟨r', hr, heq⟩ := List.mem_map.1 hpair
      obtain ⟨rfl, rfl⟩ := Prod.mk.inj heq
      exact Or.inr (Or.inr ⟨lefts, rights, hlefts, hrights, l', hl, r', hr, hfault⟩)

/-- The only faults of the candidates of a span are those of rules on retained cells. -/
theorem Supplied.strays_of_candidates (h : t.Supplied P) (hP : Scalar.Closed P) {s : Span}
    (hs : t.blank.hasSpan s = true) {fault : Fault}
    (hfault : t.candidates t.retained s = .error fault) : t.Strays fault := by
  induction hn : s.length using Nat.strongRecOn generalizing s with
  | _ n ih =>
    have hpart : ∀ part, part.length < s.length → t.blank.hasSpan part = true →
        t.cellsAt t.retained part = .error fault → t.Strays fault := fun part hlt hpart herror =>
      ih _ (hn ▸ hlt) hpart (map_eq_error.1 herror) rfl
    have hderives : ∀ part cs, t.cellsAt t.retained part = .ok cs → ∀ c ∈ cs,
        t.Derives c ∧ c.span = part := fun part cs hcs c hc =>
      ⟨derives_of_mem_cellsAt t.selects_retained hcs hc,
        span_of_mem_cellsAt t.selects_retained hcs hc⟩
    obtain ⟨entries, hentries⟩ := h.offerEntries_ok hs
    rw [candidates_eq, hentries] at hfault
    have hrest := map_eq_error.1 hfault
    rcases bind_eq_error.1 hrest with hpairs | ⟨pairs, hpairs, hrest⟩
    · -- a fault of two parts is one of the shorter spans, or of a rule for two categories
      obtain ⟨parts, hparts, hparterror⟩ := exists_of_gather_error hpairs
      obtain ⟨hleft, hright⟩ := Parser.length_lt_of_mem_splits hparts
      obtain ⟨hstart, hlt, hjoin, hlt', hstop⟩ := Parser.splits_eq hparts
      have hbounds := hasSpan_iff.1 hs
      rcases exists_of_offerParts_error hparterror with herror | herror | hpair
      · exact hpart _ hleft (hasSpan_iff.2 (by omega)) herror
      · exact hpart _ hright (hasSpan_iff.2 (by omega)) herror
      · obtain ⟨lefts, rights, hlefts, hrights, l, hl, r, hr, hoffer⟩ := hpair
        obtain ⟨hlderives, hlspan⟩ := hderives _ _ hlefts l hl
        obtain ⟨hrderives, hrspan⟩ := hderives _ _ hrights r hr
        obtain ⟨rule, hrule, hstray⟩ := h.strays_of_offerPair hP hlderives hrderives
          (by rw [hlspan, hrspan, hjoin]) hoffer
        exact .pair hs hparts hlefts hrights hl hr hrule hstray
    · rcases bind_eq_error.1 hrest with hshifted | ⟨shifted, -, hdone⟩
      · -- a fault of a cell that is retained by then is one of a rule for one category
        obtain ⟨c, hc, hoffer⟩ := exists_of_gather_error hshifted
        obtain ⟨o, ho, rfl⟩ := t.selects_retained.subset _ _ hc
        obtain ⟨hcandidate, hone, -⟩ :=
          candidate_of_mem_first t.selects_retained hentries hpairs ho
        have hcell : t.Derives o.cell :=
          hcandidate.derives_of_first t.selects_retained hone hs
            fun part _ cs hcs c hc => (hderives part cs hcs c hc).1
        obtain ⟨rule, hrule, hstray⟩ := h.strays_of_offerShift hP hcell hoffer
        exact .shift hs hentries hpairs hc hrule hstray
      · cases hdone

/-- Every span of the chart has its candidates just if no result refuses with such a fault. -/
theorem Supplied.candidates_ok (h : t.Supplied P) (hP : Scalar.Closed P)
    (hstrays : ∀ fault, ¬ t.Strays fault) {s : Span} (hs : t.blank.hasSpan s = true) :
    ∃ os, t.candidates t.retained s = .ok os := by
  by_contra hnot
  obtain ⟨fault, hfault⟩ := exists_error_iff.2 hnot
  exact hstrays fault (h.strays_of_candidates hP hs hfault)

/-- A run with such a result ends with such a fault. -/
theorem Supplied.strays_of_run (h : t.Supplied P) (hP : Scalar.Closed P) {order : List Span}
    (horder : t.Schedule order) (hstrays : ∃ fault, t.Strays fault) :
    ∃ fault, t.Strays fault ∧ t.run order = .error fault := by
  have hnot : ¬ ∃ chart, t.run order = .ok chart := by
    rintro ⟨chart, hrun⟩
    obtain ⟨fault, hstray⟩ := hstrays
    exact not_strays_of_candidates (fun s hs => (complete_run horder hrun).candidates_ok hs) fault
      hstray
  obtain ⟨fault, hfault⟩ := exists_error_iff.2 hnot
  obtain ⟨s, hs, hcandidates⟩ :=
    exists_of_run_error horder (fun s hs => h.offerEntries_ok hs) hfault
  exact ⟨fault, h.strays_of_candidates hP hs hcandidates, hfault⟩

/-- No result refuses with such a fault if all rules are regular on categories that can be keys. -/
theorem not_strays_of_regular
    (hbinary : ∀ rule ∈ t.parser.grammar.binary, ∀ a b : Category, a.hashable = true →
      b.hashable = true → Grammar.Regular (rule.apply a b))
    (hunary : ∀ rule ∈ t.parser.grammar.unary, ∀ a : Category, a.hashable = true →
      Grammar.Regular (rule.apply a)) (fault : Fault) : ¬ t.Strays fault := by
  rintro (⟨-, -, hlefts, hrights, hl, hr, hrule, hstray⟩ | ⟨-, hentries, hpairs, hc, hrule, hstray⟩)
  · have hlkey := hashable_of_mem_cellsAt t.selects_retained hlefts hl
    have hrkey := hashable_of_mem_cellsAt t.selects_retained hrights hr
    exact Grammar.regular_iff.1 (hbinary _ hrule _ _ hlkey hrkey) fault hstray
  · obtain ⟨o, ho, rfl⟩ := t.selects_retained.subset _ _ hc
    obtain ⟨-, -, hoffered⟩ := candidate_of_mem_first t.selects_retained hentries hpairs ho
    exact Grammar.regular_iff.1 (hunary _ hrule _ hoffered.hashable) fault hstray

/-- Every beam of a complete chart is made of the candidates of its span, and no cell that had to
leave was missing from a table. -/
theorem Complete.exists_push? {chart : Chart K} (h : t.Complete chart) {s : Span}
    (hs : t.blank.hasSpan s = true) : ∃ os, t.candidates t.retained s = .ok os ∧
      os.foldlM (Beam.push? chart.beamSize) .empty = some (chart.beamAt s) := by
  obtain ⟨os, hos, hbeam⟩ := h.done s hs
  refine ⟨os, hos, ?_⟩
  rw [Beam.foldlM_push?, hbeam, h.frames.beamSize]

/-- A complete chart can be reported on. -/
theorem Supplied.summary_ok (h : t.Supplied P) (hP : Scalar.Closed P) {chart : Chart K}
    (hcomplete : t.Complete chart) (verbose : Bool) :
    ∃ text, chart.summary verbose = .ok text := by
  have htext : ∀ {s : Span} {cs : List (Cell K)}, chart.cells s = .ok cs →
      ∃ texts, cs.mapM Cell.text = .ok texts := by
    intro s cs hcs
    refine exists_mapM fun c hc => ?_
    obtain ⟨w, hw⟩ := hP.weight (h.score hP (hcomplete.derives hcs hc).1)
    have hshown : Scalar.shown 4 c.score = .ok (Scalar.fixed 4 w) := by
      rw [Scalar.shown, hw]
      rfl
    exact ⟨_, by rw [Cell.text, hshown]; rfl⟩
  have hlines : ∃ lines, chart.spans.mapM (chart.spanLines verbose) = .ok lines := by
    refine exists_mapM fun s _ => ?_
    rw [Chart.spanLines]
    cases hcs : chart.cells s with
    | error fault => exact ⟨_, rfl⟩
    | ok cs =>
      cases cs with
      | nil => exact ⟨_, rfl⟩
      | cons c cs =>
        cases verbose with
        | false => exact ⟨_, rfl⟩
        | true =>
          obtain ⟨texts, htexts⟩ := htext hcs
          exact ⟨_, by simp only [if_true, htexts]; rfl⟩
  obtain ⟨lines, hlines⟩ := hlines
  exact ⟨_, by rw [Chart.summary, hlines]; rfl⟩

end Sentence

namespace Parser

/-- The chart of a sentence is found if its entries, scores and ranks are and no rule gives a result
that refuses to be a key with a fault that is not of a type. -/
theorem exists_chart_of_supplied {K : Type} [Scalar K] {P : K → Prop} {p : Parser K} {m : Model K}
    {tokens : List String} {options : ParseOptions} {t : Sentence K}
    (ht : p.sentence m tokens options = .ok t) (h : t.Supplied P) (hP : Scalar.Closed P)
    (hstrays : ∀ fault, ¬ t.Strays fault) :
    ∃ chart, (p.chart m tokens options).result = .ok chart ∧ t.run t.blank.spans = .ok chart := by
  obtain ⟨chart, hrun⟩ := Sentence.exists_run Sentence.schedule_spans fun s hs =>
    h.candidates_ok hP hstrays hs
  have hcomplete := Sentence.complete_run Sentence.schedule_spans hrun
  obtain ⟨full, hfull⟩ := h.summary_ok hP hcomplete true
  obtain ⟨short, hshort⟩ := h.summary_ok hP hcomplete false
  refine ⟨chart, ?_, hrun⟩
  rw [result_chart ht, hrun]
  simp only [Except.bind, hfull, hshort]
  split <;> rfl

variable {p : Parser Number} {m : Model Number} {tokens : List String} {options : ParseOptions}

/-- Ranking a cell is no fault if the scoring function gives it a score. -/
theorem rank_ok {ranking : Ranking Number}
    (h : ∀ score first, ranking = .task score first → ∀ v, ∃ x, score v = .ok x)
    (c : Cell Number) : ∃ r, (ranking.rank c).result = .ok r := by
  cases ranking with
  | structural => exact ⟨_, rfl⟩
  | task score first =>
    rw [Ranking.rank, Traced.result_map, Ranking.taskScore]
    split
    · exact ⟨_, rfl⟩
    · obtain ⟨x, hx⟩ := h score first rfl c.category.meaning
      exact ⟨_, by rw [Traced.result_bind, Traced.result_ofExcept, hx]; rfl⟩

theorem supplied_of_doubles {t : Sentence Number} (ht : p.sentence m tokens options = .ok t)
    (hskipped : p.config.skipsWords = true → p.skipped.hashable = true)
    (hentries : ∀ e ∈ (lexicon m options.extra).entries, e.category.hashable = true)
    (hlexical : ∀ f ∈ m.lexical, ∀ e, e.tokens ≠ [] →
      ∃ x, f.score e m.theta = .ok x ∧ x.IsDouble)
    (hrules : ∀ f ∈ m.rules, ∀ rule, ∃ x, f.score rule m.theta = .ok x ∧ x.IsDouble)
    (htask : ∀ score first, p.ranking = .task score first → ∀ v, ∃ x, score v = .ok x) :
    t.Supplied Number.IsDouble := by
  obtain ⟨hparser, hmodel, -⟩ := parts_of_sentence ht
  obtain ⟨hview, -⟩ := view_of_sentence ht
  refine ⟨?_, ?_, fun e he => ?_, fun rule => ?_, ?_⟩
  · rwa [hparser]
  · rwa [hview]
  · rw [hmodel]
    refine Number.closed_isDouble.total fun x hx => ?_
    obtain ⟨f, hf, rfl⟩ := List.mem_map.1 hx
    exact hlexical f hf e he
  · rw [hmodel]
    refine Number.closed_isDouble.total fun x hx => ?_
    obtain ⟨f, hf, rfl⟩ := List.mem_map.1 hx
    exact hrules f hf rule
  · rw [hparser]
    exact rank_ok htask

/-- A parse with a positive beam size whose entries and skipped tokens can be keys, and whose
scorers and scoring function give floating-point values, ends exactly if no rule gives a result on
retained cells that refuses to be a key with a fault that is not of a type, and otherwise it ends
with such a fault, whatever its tokens, its entries and its rules are. It does so in whatever order
the spans of one length are filled; no cell that has to leave a beam is missing from the table of
steps, and every group of full parses has a greatest score. -/
theorem parse_ends (p : Parser Number) (m : Model Number) (tokens : List String)
    (options : ParseOptions) (state : Value)
    (hroom : (options.beamSize.getD p.config.beamSize).isAtMostZero = false)
    (hskipped : p.config.skipsWords = true → p.skipped.hashable = true)
    (hentries : ∀ e ∈ (lexicon m options.extra).entries, e.category.hashable = true)
    (hlexical : ∀ f ∈ m.lexical, ∀ e, e.tokens ≠ [] →
      ∃ x, f.score e m.theta = .ok x ∧ x.IsDouble)
    (hrules : ∀ f ∈ m.rules, ∀ rule, ∃ x, f.score rule m.theta = .ok x ∧ x.IsDouble)
    (htask : ∀ score first, p.ranking = .task score first → ∀ v, ∃ x, score v = .ok x) :
    ∃ t, p.sentence m tokens options = .ok t ∧
      ((∀ fault, ¬ t.Strays fault) →
        (∃ a, ((Analyzer.mk p none).analyze m tokens state options).result = .ok a ∧
          t.run t.blank.spans = .ok a.chart) ∧
        ∀ order, t.Schedule order → ∃ chart ds, t.run order = .ok chart ∧
          Derivation.ofChart chart = .ok ds ∧
          (∀ d ∈ ds, ∃ c ∈ d.cells, c.score = d.score) ∧
          ∀ s, t.blank.hasSpan s = true → ∃ os, t.candidates t.retained s = .ok os ∧
            os.foldlM (Beam.push? chart.beamSize) .empty = some (chart.beamAt s)) ∧
      ((∃ fault, t.Strays fault) →
        (∃ fault, t.Strays fault ∧
          ((Analyzer.mk p none).analyze m tokens state options).result = .error fault) ∧
        ∀ order, t.Schedule order → ∃ fault, t.Strays fault ∧ t.run order = .error fault) := by
  obtain ⟨t, ht⟩ : ∃ t, p.sentence m tokens options = .ok t := by
    rw [sentence, dif_neg (by simp [hroom])]
    exact ⟨_, rfl⟩
  have hsupplied := supplied_of_doubles ht hskipped hentries hlexical hrules htask
  refine ⟨t, ht, fun hstrays => ⟨?_, fun order horder => ?_⟩, fun hstrays =>
    ⟨?_, fun order horder => hsupplied.strays_of_run Number.closed_isDouble horder hstrays⟩⟩
  · obtain ⟨chart, hchart, hrun⟩ :=
      exists_chart_of_supplied ht hsupplied Number.closed_isDouble hstrays
    obtain ⟨cs, ds, -, hds, -, -⟩ := (Sentence.complete_run Sentence.schedule_spans hrun).ofChart_eq
    refine ⟨⟨chart, ds.map .derived, 0⟩, ?_, hrun⟩
    simp only [Analyzer.analyze, Traced.result_bind, Traced.result_ofExcept, Traced.result_pure,
      hchart, hds, Except.bind]
  · obtain ⟨chart, hrun⟩ := Sentence.exists_run horder fun s hs =>
      hsupplied.candidates_ok Number.closed_isDouble hstrays hs
    have hcomplete := Sentence.complete_run horder hrun
    obtain ⟨cs, ds, -, hds, -, -⟩ := hcomplete.ofChart_eq
    exact ⟨chart, ds, hrun, hds, fun d _ => Sentence.score_mem d, fun s hs =>
      hcomplete.exists_push? hs⟩
  · obtain ⟨fault, hfault, hrun⟩ :=
      hsupplied.strays_of_run Number.closed_isDouble Sentence.schedule_spans hstrays
    refine ⟨fault, hfault, ?_⟩
    simp only [Analyzer.analyze, Traced.result_bind, result_chart ht, hrun, Except.bind]

/-- A rule that fails, and one whose results refuse to be keys as lists do. -/
def brokenRules : List BinaryRule :=
  [.custom "Failing" ⟨"fail", .forward⟩ fun _ _ =>
      .error (.raised .zeroDivision "division by zero"),
    .custom "Listing" ⟨"list", .forward⟩ fun left _ =>
      .ok [⟨⟨"list", .forward⟩, ⟨left.type, .list [left.meaning]⟩⟩]]

/-- A parser with some rules, beams for one cell and an undefined task score. -/
def undefinedParser (rules : List BinaryRule) : Parser Number :=
  .create (.ofRules rules []) ⟨.int 1, none, true, .int 1⟩
    (.task (fun _ => .ok (.real (0.0 / 0.0))) true) .empty true

/-- A model that scores entries with an undefined value. -/
def undefinedScores : Model Number :=
  ⟨.ofList [⟨["a"], ⟨some (.primitive "NP"), .text "x"⟩, .fixed, []⟩],
    [⟨"LEX", .uniform (.real (0.0 / 0.0))⟩], [], [], .empty⟩

/-- A parse with broken rules and undefined scores ends. -/
theorem parse_ends_broken : ∃ a,
    ((Analyzer.mk (undefinedParser brokenRules) none).analyze undefinedScores ["a", "b"] .none
      .plain).result = .ok a := by
  obtain ⟨t, ht, hends, -⟩ := parse_ends (undefinedParser brokenRules) undefinedScores ["a", "b"]
    .plain .none rfl (fun _ => rfl)
    (by
      intro e he
      rw [List.mem_singleton.1 he]
      rfl)
    (by
      intro f hf e _
      rw [List.mem_singleton.1 hf]
      exact ⟨.real (0.0 / 0.0), rfl, Or.inr ⟨_, rfl⟩⟩)
    (fun f hf => absurd hf List.not_mem_nil)
    (by
      rintro score first hranking v
      cases hranking
      exact ⟨_, rfl⟩)
  obtain ⟨hparser, -⟩ := parts_of_sentence ht
  have hbinary : ∀ rule ∈ t.parser.grammar.binary, ∀ a b : Category, a.hashable = true →
      b.hashable = true → Grammar.Regular (rule.apply a b) := by
    intro rule hrule a b ha hb
    have hgrammar : t.parser.grammar.binary =
        brokenRules ++ [.skipping .forward, .skipping .backward] := by
      rw [hparser]
      rfl
    simp only [hgrammar, brokenRules, List.cons_append, List.nil_append, List.mem_cons,
      List.not_mem_nil, or_false] at hrule
    rcases hrule with rfl | rfl | rfl | rfl
    · rintro results hresults
      cases hresults
    · rintro results hresults r hr fault hfault
      obtain rfl := Except.ok.inj hresults
      obtain rfl := List.mem_singleton.1 hr
      obtain rfl := Option.some.inj hfault
      rfl
    · exact BinaryRule.regular_of_schematic (.skipping .forward) ha hb
    · exact BinaryRule.regular_of_schematic (.skipping .backward) ha hb
  have hunary : ∀ rule ∈ t.parser.grammar.unary, ∀ a : Category, a.hashable = true →
      Grammar.Regular (rule.apply a) := by
    rw [hparser]
    exact fun rule hrule => absurd hrule List.not_mem_nil
  obtain ⟨⟨a, ha, -⟩, -⟩ := hends (Sentence.not_strays_of_regular hbinary hunary)
  exact ⟨a, ha⟩

/-- A rule whose result has a meaning that refuses to be a key with a fault of a value. -/
def viewingRule : BinaryRule :=
  .custom "Viewing" ⟨"view", .forward⟩ fun left _ =>
    .ok [⟨⟨"view", .forward⟩, ⟨left.type, .foreign ⟨0, "memoryview", "<memory>",
      some (.raised .value "cannot hash writable memoryview object")⟩⟩⟩]

/-- A parse with such a rule ends with this fault as soon as there are two cells to combine. -/
theorem parse_ends_not :
    let p : Parser Number := .create (.ofRules [viewingRule] [])
      ⟨.int 1, none, true, .int 1⟩ .structural .empty true
    let m : Model Number :=
      ⟨.ofList [⟨["a"], ⟨some (.primitive "NP"), .text "x"⟩, .fixed, []⟩], [], [], [], .empty⟩
    ((Analyzer.mk p none).analyze m ["a", "a"] .none .plain).result =
      .error (.raised .value "cannot hash writable memoryview object") := by
  intro p m
  have hrun : ((Analyzer.mk p none).analyze m ["a", "a"] .none .plain).result.map (fun _ => ()) =
      .error (.raised .value "cannot hash writable memoryview object") := by decide +kernel
  exact map_eq_error.1 hrun

end Parser

end Categorial
