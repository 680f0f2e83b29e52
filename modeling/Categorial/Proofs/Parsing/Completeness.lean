import Categorial.Proofs.Chart.Room
import Categorial.Proofs.Grammar
import Categorial.Proofs.Parsing.Tree

/-!
Charts whose beams were never full. What was offered to such a beam is retained, up to being the
same step, and so is what was offered to it before its own cells were looked at. Main statement: if
rules give equal results on equal categories, every derivation has a cell that stands for it, and it
is the only one of its span.
-/

namespace Categorial

/-- Of elements of which no two have a property, just one has it if any has. -/
theorem countP_eq_one {α : Type} {p : α → Bool} {xs : List α}
    (h : xs.Pairwise fun a b => p a = true → p b = false) (hx : ∃ x ∈ xs, p x = true) :
    xs.countP p = 1 := by
  induction xs with
  | nil => simp at hx
  | cons x xs ih =>
    obtain ⟨hfirst, hrest⟩ := List.pairwise_cons.1 h
    cases hp : p x with
    | true =>
      rw [List.countP_cons_of_pos hp, List.countP_eq_zero.2]
      intro y hy
      rw [hfirst y hy hp]
      exact Bool.false_ne_true
    | false =>
      rw [List.countP_cons_of_neg (by simp [hp])]
      obtain ⟨y, hy, hpy⟩ := hx
      rcases List.mem_cons.1 hy with rfl | hy
      · rw [hp] at hpy
        exact Bool.noConfusion hpy
      · exact ih hrest ⟨y, hy, hpy⟩

theorem Parser.mem_splits {start mid stop : Int} (hmid : start < mid) (hstop : mid < stop) :
    ((⟨start, mid⟩, ⟨mid, stop⟩) : Span × Span) ∈ splits ⟨start, stop⟩ := by
  refine List.mem_map.2 ⟨(mid - start - 1).toNat, List.mem_range.2 ?_, ?_⟩
  · dsimp only
    omega
  · have heq : start + ((mid - start - 1).toNat : Int) + 1 = mid := by omega
    dsimp only
    rw [heq]

/-- A span splits into two spans that lie side by side. -/
theorem Parser.mem_splits_of_join {l r : Span} (hl : l.start < l.stop) (hr : r.start < r.stop)
    (hjoin : l.stop = r.start) : (l, r) ∈ splits ⟨l.start, r.stop⟩ := by
  have hmem := mem_splits hl (hjoin ▸ hr)
  have hspan : (⟨l.stop, r.stop⟩ : Span) = r := by rw [hjoin]
  rwa [hspan] at hmem

/-- Whether no span was offered more than `k` different cells. -/
def Chart.fits {K : Type} (chart : Chart K) (k : Nat) : Bool :=
  chart.spans.all fun s => (chart.beamAt s).offered ≤ k

/-- Whether every cell that was offered to a beam of a chart is still there. -/
def Chart.keepsAll {K : Type} (chart : Chart K) : Bool :=
  chart.spans.all fun s => (chart.beamAt s).size = (chart.beamAt s).offered

namespace Sentence

variable {K : Type} {t : Sentence K}

theorem IsDerivation.hasSpan {T : Tree} (h : t.IsDerivation T) :
    t.blank.hasSpan T.span = true := by
  induction h with
  | entry hs => exact hs
  | skip hs => exact hs
  | pair _ _ hjoin _ _ ihl ihr =>
    rw [hasSpan_iff] at ihl ihr ⊢
    dsimp only [Tree.span]
    omega
  | shift _ _ _ _ ih => exact ih

variable [Scalar K]

/-- Whether the candidates of every span can be found, and no beam loses a cell. -/
structure Ample (t : Sentence K) : Prop where
  ends : ∀ s, t.blank.hasSpan s = true → ∃ os, t.candidates t.retained s = .ok os
  keeps : ∀ s, t.blank.hasSpan s = true → ∀ os, t.candidates t.retained s = .ok os →
    (Beam.ofOffers t.blank.beamSize os).size = (Beam.ofOffers t.blank.beamSize os).offered

section

variable {chart : Chart K} (h : t.Complete chart)

include h

theorem Complete.spans_eq : chart.spans = t.blank.spans := by
  rw [Chart.spans, Chart.spans, h.frames.size]

theorem Complete.candidates_ok {s : Span} (hs : t.blank.hasSpan s = true) :
    ∃ os, t.candidates t.retained s = .ok os := by
  obtain ⟨os, hos, -⟩ := h.done s hs
  exact ⟨os, hos⟩

theorem Complete.beamAt_eq {s : Span} (hs : t.blank.hasSpan s = true) {os : List (Offer K)}
    (hos : t.candidates t.retained s = .ok os) :
    chart.beamAt s = Beam.ofOffers t.blank.beamSize os := by
  obtain ⟨os', hos', hbeam⟩ := h.done s hs
  obtain rfl := Except.ok.inj (hos.symm.trans hos')
  exact hbeam

/-- A sentence loses no cell if the beams of its chart lost none. -/
theorem Complete.ample (hkeeps : chart.keepsAll = true) : t.Ample := by
  refine ⟨fun s hs => h.candidates_ok hs, fun s hs os hos => ?_⟩
  rw [Chart.keepsAll, h.spans_eq, List.all_eq_true] at hkeeps
  rw [← h.beamAt_eq hs hos]
  simpa using hkeeps s (mem_spans.2 hs)

end

/-- What a sentence is that loses no derivation: its rules give equal results on equal categories,
the candidates of every span can be found, and none has more of them than it may hold. -/
structure Exhaustive (t : Sentence K) : Prop where
  coherent : t.parser.grammar.Coherent
  ends : ∀ s, t.blank.hasSpan s = true → ∃ os, t.candidates t.retained s = .ok os
  fits : ∃ k : Nat, t.blank.beamSize.whole = .ok k ∧ ∀ s, t.blank.hasSpan s = true →
    ∀ os, t.candidates t.retained s = .ok os → (Beam.ofOffers t.blank.beamSize os).offered ≤ k

/-- Whether a cell is retained that stands for a tree. -/
def Holds (t : Sentence K) (T : Tree) : Prop :=
  ∃ os, t.candidates t.retained T.span = .ok os ∧ ∃ c ∈ t.retained os, T.describes c = true

namespace Exhaustive

variable {s : Span} {os : List (Offer K)} {T : Tree}

/-- A cell is retained for every tree that an offered cell stands for, also before the last cells
are offered. -/
theorem exists_retained (h : t.Exhaustive) (hs : t.blank.hasSpan s = true)
    {front back : List (Offer K)} (hos : t.candidates t.retained s = .ok (front ++ back))
    {o : Offer K} (ho : o ∈ front) (hT : T.describes o.cell = true) :
    ∃ c ∈ t.retained front, T.describes c = true := by
  obtain ⟨k, hroom, hfits⟩ := h.fits
  have hk := Nat.le_trans (Beam.offered_le_append _ front back) (hfits s hs _ hos)
  obtain ⟨c, hc, hsame⟩ := (Beam.exhaustive_ofOffers hroom hk).held o ho
  exact ⟨c, hc, Tree.describes_of_sameStep hT (Cell.sameStep_symm hsame)⟩

/-- A tree is held if an offered cell stands for it. -/
theorem holds (h : t.Exhaustive) (hs : t.blank.hasSpan T.span = true)
    (hos : t.candidates t.retained T.span = .ok os) {o : Offer K} (ho : o ∈ os)
    (hT : T.describes o.cell = true) : t.Holds T := by
  refine ⟨os, hos, ?_⟩
  rw [← List.append_nil os] at hos
  exact h.exists_retained hs hos ho hT

theorem holds_entry (h : t.Exhaustive) {e : Entry} (hs : t.blank.hasSpan s = true)
    (he : ∀ entries, t.entriesAt s = .ok entries → e ∈ entries) : t.Holds (.entry e s) := by
  obtain ⟨os, hos⟩ := h.ends s hs
  obtain ⟨first, rest, hfirst, -, rfl⟩ := candidates_eq_ok hos
  cases hentries : t.entriesAt s with
  | error fault => simp [offerEntries, hentries, bind, Except.bind] at hfirst
  | ok entries =>
    obtain ⟨o, ho, score, -, hcell⟩ := exists_offer_entry hfirst hentries (he entries hentries)
    refine h.holds hs hos (List.mem_append_left _ ho) ?_
    rw [hcell]
    exact Tree.describes_entry.2 ⟨rfl, e, rfl, Entry.same_refl e⟩

/-- The rules give their results on trees that are held side by side. -/
theorem exists_applyBinary (h : t.Exhaustive) {left right : Tree}
    (hl : t.blank.hasSpan left.span = true) (hr : t.blank.hasSpan right.span = true)
    (hjoin : left.span.stop = right.span.start) (hleft : t.Holds left) (hright : t.Holds right) :
    ∃ results, (t.parser.grammar.applyBinary left.category right.category).result =
      .ok results := by
  obtain ⟨lefts, hlefts, a, ha, hdescribes⟩ := hleft
  obtain ⟨rights, hrights, b, hb, hdescribes'⟩ := hright
  rw [hasSpan_iff] at hl hr
  obtain ⟨os, hos⟩ := h.ends ⟨left.span.start, right.span.stop⟩ (hasSpan_iff.2 (by
    dsimp only
    omega))
  obtain ⟨first, rest, -, hrest, rfl⟩ := candidates_eq_ok hos
  obtain ⟨pairs, shifted, hpairs, -, rfl⟩ := offerRest_eq_ok hrest
  obtain ⟨os, hos', -⟩ := exists_offerPair hpairs (Parser.mem_splits_of_join hl.2.1 hr.2.1 hjoin)
    (by rw [cellsAt, hlefts]; rfl) (by rw [cellsAt, hrights]; rfl) ha hb
  obtain ⟨results, hresults⟩ := applyBinary_of_offerPair hos'
  obtain ⟨results', hresults', -⟩ := h.coherent.binary _ _ _ _
    (Category.same_symm (Tree.category_same_of_describes hdescribes))
    (Category.same_symm (Tree.category_same_of_describes hdescribes')) _ hresults
  exact ⟨results', hresults'⟩

theorem holds_pair (h : t.Exhaustive) {r : RuleResult} {results : List RuleResult}
    {left right : Tree} (hl : t.IsDerivation left) (hr : t.IsDerivation right)
    (hjoin : left.span.stop = right.span.start)
    (hresults : (t.parser.grammar.applyBinary left.category right.category).result = .ok results)
    (hres : r ∈ results) (hleft : t.Holds left) (hright : t.Holds right) :
    t.Holds (.pair r left right) := by
  obtain ⟨lefts, hlefts, a, ha, hdescribes⟩ := hleft
  obtain ⟨rights, hrights, b, hb, hdescribes'⟩ := hright
  have hs := (IsDerivation.pair hl hr hjoin hresults hres).hasSpan
  obtain ⟨os, hos⟩ := h.ends _ hs
  obtain ⟨first, rest, -, hrest, rfl⟩ := candidates_eq_ok hos
  obtain ⟨pairs, shifted, hpairs, -, rfl⟩ := offerRest_eq_ok hrest
  obtain ⟨results', hresults', hamong⟩ := h.coherent.binary _ _ _ _
    (Tree.category_same_of_describes hdescribes) (Tree.category_same_of_describes hdescribes')
    _ hresults
  obtain ⟨r', hr', hrule, hcategory⟩ := hamong r hres
  have hparts : (left.span, right.span) ∈ Parser.splits (Tree.pair r left right).span := by
    obtain ⟨-, hlt, -⟩ := hasSpan_iff.1 hl.hasSpan
    obtain ⟨-, hlt', -⟩ := hasSpan_iff.1 hr.hasSpan
    exact Parser.mem_splits_of_join hlt hlt' hjoin
  obtain ⟨o, ho, score, -, hcell⟩ := exists_offer_pair hpairs hparts
    (by rw [cellsAt, hlefts]; rfl) (by rw [cellsAt, hrights]; rfl) ha hb hresults' hr'
  refine h.holds hs hos (List.mem_append_right _ (List.mem_append_left _ ho)) ?_
  rw [hcell]
  exact Tree.describes_pair.2 ⟨⟨hrule, hcategory⟩, a, b, rfl, hdescribes, hdescribes'⟩

/-- Of the cell that stands for a tree, if it is no result on a single cell, the rules for one
category are asked. -/
theorem exists_offerShift (h : t.Exhaustive) {child : Tree}
    (hs : t.blank.hasSpan child.span = true) (hshift : child.isShift = false)
    (hheld : t.Holds child) : ∃ front shifted a,
      t.candidates t.retained child.span = .ok (front ++ shifted) ∧
        gather t.offerShift (t.retained front) = .ok shifted ∧ a ∈ t.retained front ∧
          child.describes a = true := by
  obtain ⟨os, hos, c, hc, hdescribes⟩ := hheld
  obtain ⟨first, rest, hfirst, hrest, rfl⟩ := candidates_eq_ok hos
  obtain ⟨pairs, shifted, hpairs, hshifted, rfl⟩ := offerRest_eq_ok hrest
  -- a cell that stands for the child was offered before the cells of the span were looked at
  obtain ⟨o, ho, rfl⟩ := t.selects_retained.subset _ c hc
  rw [← List.append_assoc] at hos ho
  have hbefore : o ∈ first ++ pairs := by
    rcases List.mem_append.1 ho with ho | ho
    · exact ho
    · obtain ⟨c', hc', os', hos', ho⟩ := mem_of_gather hshifted ho
      obtain ⟨_, _, _, -, -, -, hcell, -⟩ := mem_offerShift hos' ho
      have hone := Tree.isShift_iff hdescribes
      rw [hcell, hshift] at hone
      simp at hone
  obtain ⟨a, ha, hdescribes⟩ := h.exists_retained hs hos hbefore hdescribes
  exact ⟨_, shifted, a, hos, hshifted, ha, hdescribes⟩

/-- The rules give their results on a tree that is held, if it is no result on a single tree. -/
theorem exists_applyUnary (h : t.Exhaustive) {child : Tree}
    (hs : t.blank.hasSpan child.span = true) (hshift : child.isShift = false)
    (hheld : t.Holds child) :
    ∃ results, (t.parser.grammar.applyUnary child.category).result = .ok results := by
  obtain ⟨front, shifted, a, -, hshifted, ha, hdescribes⟩ := h.exists_offerShift hs hshift hheld
  obtain ⟨os, hos, -⟩ := subset_of_gather hshifted ha
  obtain ⟨results, hresults⟩ := applyUnary_of_offerShift hos
  obtain ⟨results', hresults', -⟩ := h.coherent.unary _ _
    (Category.same_symm (Tree.category_same_of_describes hdescribes)) _ hresults
  exact ⟨results', hresults'⟩

theorem holds_shift (h : t.Exhaustive) {r : RuleResult} {results : List RuleResult} {child : Tree}
    (hchild : t.IsDerivation child) (hshift : child.isShift = false)
    (hresults : (t.parser.grammar.applyUnary child.category).result = .ok results)
    (hres : r ∈ results) (hheld : t.Holds child) : t.Holds (.shift r child) := by
  obtain ⟨front, shifted, a, hos, hshifted, ha, hdescribes⟩ :=
    h.exists_offerShift hchild.hasSpan hshift hheld
  obtain ⟨results', hresults', hamong⟩ := h.coherent.unary _ _
    (Tree.category_same_of_describes hdescribes) _ hresults
  obtain ⟨r', hr', hrule, hcategory⟩ := hamong r hres
  obtain ⟨o', ho', score, -, hcell⟩ := exists_offer_shift hshifted ha hresults' hr'
  refine h.holds (T := .shift r child) hchild.hasSpan hos (List.mem_append_right _ ho') ?_
  rw [hcell]
  exact Tree.describes_shift.2 ⟨⟨hrule, hcategory⟩, a, rfl, hdescribes⟩

/-- Every derivation is held. -/
theorem holds_of_isDerivation (h : t.Exhaustive) (hT : t.IsDerivation T) : t.Holds T := by
  induction hT with
  | entry hs he =>
    exact h.holds_entry hs fun entries hentries => (mem_entriesAt hentries).2 (Or.inl he)
  | skip hs hskips hone =>
    exact h.holds_entry hs fun entries hentries =>
      (mem_entriesAt hentries).2 (Or.inr ⟨hskips, hone, rfl⟩)
  | pair hl hr hjoin hresults hres ihl ihr => exact h.holds_pair hl hr hjoin hresults hres ihl ihr
  | shift hchild hshift hresults hres ih => exact h.holds_shift hchild hshift hresults hres ih

end Exhaustive

/-- A complete chart whose beams were never full loses no derivation. -/
theorem Complete.exhaustive {chart : Chart K} (h : t.Complete chart) {k : Nat}
    (hgrammar : t.parser.grammar.Coherent) (hroom : t.blank.beamSize.whole = .ok k)
    (hfits : chart.fits k = true) : t.Exhaustive := by
  refine ⟨hgrammar, fun s hs => h.candidates_ok hs, k, hroom, fun s hs os hos => ?_⟩
  rw [Chart.fits, h.spans_eq, List.all_eq_true] at hfits
  rw [← h.beamAt_eq hs hos]
  simpa using hfits s (mem_spans.2 hs)

/-- Every derivation has just one cell of its span that stands for it. -/
theorem Complete.countP_describes {chart : Chart K} (h : t.Complete chart)
    (hexhaustive : t.Exhaustive) {T : Tree} (hT : t.IsDerivation T) :
    ∃ cs, chart.cells T.span = .ok cs ∧ cs.countP T.describes = 1 := by
  obtain ⟨os, hos, hcell⟩ := hexhaustive.holds_of_isDerivation hT
  have hcells : chart.cells T.span = .ok (t.retained os) := by
    rw [h.cells_eq hT.hasSpan, cellsAt, hos]
    rfl
  refine ⟨t.retained os, hcells, countP_eq_one ?_ hcell⟩
  refine (h.apart hcells).imp_of_mem fun {c d} hc hd hapart hdescribes => ?_
  rw [← Bool.not_eq_true]
  intro hdescribes'
  obtain ⟨hderives, -⟩ := h.derives hcells hc
  obtain ⟨hderives', -⟩ := h.derives hcells hd
  have hsame := hderives.sameNode_of_describes hderives' hdescribes hdescribes'
  rw [Cell.sameStep_of_sameNode hsame] at hapart
  exact Bool.noConfusion hapart

/-- Every retained cell stands for a derivation of its span. -/
theorem Complete.exists_tree {chart : Chart K} (h : t.Complete chart) {s : Span}
    {cs : List (Cell K)} (hcs : chart.cells s = .ok cs) {c : Cell K} (hc : c ∈ cs) :
    ∃ T, t.IsDerivation T ∧ T.describes c = true ∧ T.category = c.category ∧ T.span = s ∧
      t.scoreTree T = .ok c.score := by
  obtain ⟨hderives, rfl⟩ := h.derives hcs hc
  exact hderives.exists_tree

end Sentence

end Categorial
