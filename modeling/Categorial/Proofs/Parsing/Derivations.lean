import Categorial.Proofs.Parsing.Candidates

/-!
Cells that are derivations from the tokens of a sentence. Whatever the scores and the size of the
beams are, the cells that a span retains are derivations; the span of a derivation depends on its
nodes alone. Main statement: candidates that are one step are made of the same cells, so they have
the same score, or they are entries that are the same.
-/

namespace Categorial.Sentence

variable {K : Type} [Scalar K] {t t' : Sentence K} {select : List (Offer K) → List (Cell K)}

/-- Cells that are derivations from the tokens of a sentence. -/
inductive Derives (t : Sentence K) : Cell K → Prop where
  | entry {s : Span} {entries : List Entry} {e : Entry} {score : K}
      (hs : t.blank.hasSpan s = true) (hentries : t.entriesAt s = .ok entries) (he : e ∈ entries)
      (hscore : t.model.scoreEntry e = .ok score) : Derives t (t.leaf e s score)
  | pair {l r : Cell K} {results : List RuleResult} {res : RuleResult} {score : K}
      (hl : Derives t l) (hr : Derives t r) (hjoin : l.span.stop = r.span.start)
      (hresults : (t.parser.grammar.applyBinary l.category r.category).result = .ok results)
      (hres : res ∈ results) (hscore : t.scoreNode [l.score, r.score] res.rule = .ok score) :
      Derives t (t.node [l, r] res ⟨l.span.start, r.span.stop⟩ score)
  | shift {c : Cell K} {results : List RuleResult} {res : RuleResult} {score : K}
      (hc : Derives t c) (hone : c.children.length ≠ 1)
      (hresults : (t.parser.grammar.applyUnary c.category).result = .ok results)
      (hres : res ∈ results) (hscore : t.scoreNode [c.score] res.rule = .ok score) :
      Derives t (t.node [c] res c.span score)

/-- A candidate that is no result on a single cell is a derivation, if the cells of the shorter
spans are. -/
theorem Candidate.derives_of_first (hselect : Selects select) {s : Span} {c : Cell K}
    (h : t.Candidate select s c) (hone : c.children.length ≠ 1) (hs : t.blank.hasSpan s = true)
    (hshorter : ∀ part, part.length < s.length → ∀ cs, t.cellsAt select part = .ok cs →
      ∀ c ∈ cs, t.Derives c) : t.Derives c := by
  cases h with
  | entry hentries he hscore => exact .entry hs hentries he hscore
  | pair hparts hlefts hrights hl hr hresults hres hscore =>
    obtain ⟨hstart, -, hjoin, -, hstop⟩ := Parser.splits_eq hparts
    obtain ⟨hleft, hright⟩ := Parser.length_lt_of_mem_splits hparts
    have hlspan := span_of_mem_cellsAt hselect hlefts hl
    have hrspan := span_of_mem_cellsAt hselect hrights hr
    have hnode := Derives.pair (hshorter _ hleft _ hlefts _ hl) (hshorter _ hright _ hrights _ hr)
      (by rw [hlspan, hrspan, hjoin]) hresults hres hscore
    rwa [hlspan, hrspan, hstart, hstop] at hnode
  | shift => exact absurd rfl hone

/-- A candidate is a derivation, if the cells of the shorter spans are. -/
theorem Candidate.derives (hselect : Selects select) {s : Span} {c : Cell K}
    (h : t.Candidate select s c) (hs : t.blank.hasSpan s = true)
    (hshorter : ∀ part, part.length < s.length → ∀ cs, t.cellsAt select part = .ok cs →
      ∀ c ∈ cs, t.Derives c) : t.Derives c := by
  by_cases hone : c.children.length = 1
  · cases h with
    | entry => simp at hone
    | pair => simp at hone
    | shift hentries hpairs hc hspan hresults hres hscore =>
      obtain ⟨o, ho, rfl⟩ := hselect.subset _ _ hc
      obtain ⟨hcandidate, hone, -⟩ := candidate_of_mem_first hselect hentries hpairs ho
      have hchild := hcandidate.derives_of_first hselect hone hs hshorter
      have hnode := Derives.shift hchild hone hresults hres hscore
      rwa [hspan] at hnode
  · exact h.derives_of_first hselect hone hs hshorter

/-- The cells that a span retains are derivations. -/
theorem derives_of_mem_cellsAt (hselect : Selects select) {s : Span} {cs : List (Cell K)}
    (h : t.cellsAt select s = .ok cs) {c : Cell K} (hc : c ∈ cs) : t.Derives c := by
  induction hn : s.length using Nat.strongRecOn generalizing s cs c with
  | _ n ih =>
    obtain ⟨os, hos, -, o, ho, rfl⟩ := mem_cellsAt hselect h hc
    obtain ⟨hcandidate, hoffered⟩ := candidate_of_mem hselect hos ho
    have hspan := span_of_mem_candidates hselect hos ho
    exact hcandidate.derives hselect (hspan ▸ hoffered.hasSpan)
      fun part hlt cs hcs c hc => ih _ (hn ▸ hlt) hcs hc rfl

/-- The cells of a complete chart are derivations of their spans. -/
theorem Complete.derives {chart : Chart K} (h : t.Complete chart) {s : Span} {cs : List (Cell K)}
    (hcs : chart.cells s = .ok cs) {c : Cell K} (hc : c ∈ cs) : t.Derives c ∧ c.span = s := by
  have hcells := h.cellsAt_eq hcs
  exact ⟨derives_of_mem_cellsAt t.selects_retained hcells hc,
    span_of_mem_cellsAt t.selects_retained hcells hc⟩

/-- No two cells of a span of a complete chart are the same step. -/
theorem Complete.apart {chart : Chart K} (h : t.Complete chart) {s : Span} {cs : List (Cell K)}
    (hcs : chart.cells s = .ok cs) : cs.Pairwise fun c d => c.sameStep d = false := by
  have hcells := h.cellsAt_eq hcs
  rw [cellsAt] at hcells
  cases hos : t.candidates t.retained s with
  | error fault => simp [hos, Except.map] at hcells
  | ok os =>
    rw [hos, Except.map, Except.ok.injEq] at hcells
    rw [← hcells]
    exact t.selects_retained.apart os

theorem Derives.hasSpan {c : Cell K} (h : t.Derives c) : t.blank.hasSpan c.span = true := by
  induction h with
  | entry hs => exact hs
  | pair _ _ hjoin _ _ _ ihl ihr =>
    rw [hasSpan_iff] at ihl ihr ⊢
    rw [node_span]
    dsimp only
    omega
  | shift _ _ _ _ _ ih => exact ih

/-- The children of a derivation are derivations. -/
theorem Derives.child {c d : Cell K} (h : t.Derives c) (hd : d ∈ c.children) : t.Derives d := by
  cases h with
  | entry => simp at hd
  | pair hl hr =>
    rw [node_children, List.mem_pair] at hd
    rcases hd with rfl | rfl
    · exact hl
    · exact hr
  | shift hc =>
    rw [node_children, List.mem_singleton] at hd
    rwa [hd]

theorem Derives.entry_mem {c : Cell K} {e : Entry} (h : t.Derives c) (he : c.entry? = some e) :
    ∃ entries, t.entriesAt c.span = .ok entries ∧ e ∈ entries ∧
      t.model.scoreEntry e = .ok c.score := by
  cases h with
  | entry _ hentries hmem hscore =>
    obtain rfl := Option.some.inj he
    exact ⟨_, hentries, hmem, hscore⟩
  | pair => simp [node, Cell.entry?] at he
  | shift => simp [node, Cell.entry?] at he

theorem Derives.scoreNode_eq {c : Cell K} (h : t.Derives c) (hchildren : c.children ≠ []) :
    t.scoreNode (c.children.map Cell.score) c.rule = .ok c.score := by
  cases h with
  | entry => exact absurd rfl hchildren
  | pair _ _ _ _ _ hscore => exact hscore
  | shift _ _ _ _ hscore => exact hscore

/-- Derivations with children, of one sentence or of two, are one node if their rules, categories
and children are. -/
theorem Derives.sameNode_of_parts {c d : Cell K} (hc : t.Derives c) (hd : t'.Derives d)
    (hchildren : c.children ≠ []) (hchildren' : d.children ≠ []) (hrule : c.rule = d.rule)
    (hcategory : c.category.same d.category = true)
    (hnodes : Cell.sameNodes c.children d.children = true) : c.sameNode d = true := by
  have hform : ∀ {t : Sentence K} {c : Cell K}, t.Derives c → c.children ≠ [] →
      ∃ r s score, c = t.node c.children r s score := by
    intro t c hc hchildren
    cases hc with
    | entry => exact absurd rfl hchildren
    | pair => exact ⟨_, _, _, rfl⟩
    | shift => exact ⟨_, _, _, rfl⟩
  obtain ⟨r, s, score, hc⟩ := hform hc hchildren
  obtain ⟨r', s', score', hd⟩ := hform hd hchildren'
  rw [hc, hd] at hrule hcategory
  rw [hc, hd]
  simp only [node, Cell.sameNode, Bool.and_eq_true, beq_self_eq_true, true_and, beq_iff_eq]
  exact ⟨⟨hrule, hcategory⟩, hnodes⟩

/-- Derivations that are one node have one span. -/
theorem Derives.span_eq_of_sameNode {c d : Cell K} (hc : t.Derives c) (hd : t.Derives d)
    (hsame : c.sameNode d = true) : c.span = d.span := by
  induction hc generalizing d with
  | entry =>
    cases hd with
    | entry =>
      simp only [leaf, Cell.sameNode, Bool.and_eq_true, beq_iff_eq] at hsame
      exact hsame.1.2
    | pair => simp [leaf, node, Cell.sameNode] at hsame
    | shift => simp [leaf, node, Cell.sameNode] at hsame
  | pair _ _ _ _ _ _ ihl ihr =>
    cases hd with
    | entry => simp [leaf, node, Cell.sameNode] at hsame
    | pair hl hr =>
      simp only [node, Cell.sameNode, Cell.sameNodes, Bool.and_eq_true] at hsame
      rw [node_span, node_span, ihl hl hsame.2.1, ihr hr hsame.2.2.1]
    | shift => simp [node, Cell.sameNode, Cell.sameNodes] at hsame
  | shift _ _ _ _ _ ih =>
    cases hd with
    | entry => simp [leaf, node, Cell.sameNode] at hsame
    | pair => simp [node, Cell.sameNode, Cell.sameNodes] at hsame
    | shift hchild =>
      simp only [node, Cell.sameNode, Cell.sameNodes, Bool.and_eq_true] at hsame
      rw [node_span, node_span]
      exact ih hchild hsame.2.1

/-- Cells that spans retain and that are one node are one cell. -/
theorem eq_of_sameNode (hselect : Selects select) {s s' : Span} {cs cs' : List (Cell K)}
    (hcs : t.cellsAt select s = .ok cs) (hcs' : t.cellsAt select s' = .ok cs') {c c' : Cell K}
    (hc : c ∈ cs) (hc' : c' ∈ cs') (hsame : c.sameNode c' = true) : c = c' := by
  have hspan : s = s' := by
    rw [← span_of_mem_cellsAt hselect hcs hc, ← span_of_mem_cellsAt hselect hcs' hc']
    exact (derives_of_mem_cellsAt hselect hcs hc).span_eq_of_sameNode
      (derives_of_mem_cellsAt hselect hcs' hc') hsame
  subst hspan
  rw [hcs, Except.ok.injEq] at hcs'
  subst hcs'
  obtain ⟨os, -, rfl, -⟩ := mem_cellsAt hselect hcs hc
  exact hselect.eq_of_sameStep hc hc' (Cell.sameStep_of_sameNode hsame)

end Categorial.Sentence
