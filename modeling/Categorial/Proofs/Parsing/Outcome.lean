import Categorial.Proofs.Parsing.Best
import Categorial.Proofs.Parsing.Completeness
import Categorial.Proofs.Parsing.Groups
import Categorial.Proofs.Parsing.Soundness

/-!
What a parse gives: the full parses of a chart, grouped by their categories and sorted by their
scores. Main statement: if beams were never full, the groups have the categories of all derivations
of the whole sentence with a root type, the score of a group is the greatest one among those of its
category, and the score of the best groups is the greatest one of all.
-/

namespace Categorial

namespace Chart

variable {K : Type}

/-- The cells that a chart retains over a span; over what is no span of it there are none. -/
def cellsOver (chart : Chart K) (s : Span) : List (Cell K) := (chart.cells s).toOption.getD []

theorem mem_cellsOver {chart : Chart K} {s : Span} {c : Cell K} :
    c ∈ chart.cellsOver s ↔ ∃ cs, chart.cells s = .ok cs ∧ c ∈ cs := by
  rw [cellsOver]
  cases chart.cells s <;> simp [Except.toOption]

end Chart

namespace Sentence

variable {K : Type} {t : Sentence K}

/-- The derivations of the whole sentence with a root type. -/
structure IsParse (t : Sentence K) (T : Tree) : Prop where
  derivation : t.IsDerivation T
  span : T.span = ⟨0, t.tokens.length⟩
  root : t.blank.isRootType T.category.type = true

/-- Whether derivations of the whole sentence with the same category all have a root type if one
has. -/
def RootsAlike (t : Sentence K) : Prop :=
  ∀ T T', t.IsParse T → t.IsDerivation T' → T'.span = ⟨0, t.tokens.length⟩ →
    T.category.same T'.category = true → t.blank.isRootType T'.category.type = true

/-- With a root type, derivations of equal categories have root types alike. -/
theorem rootsAlike_of_root {root : Typing} (h : t.blank.root = some root) : t.RootsAlike := by
  intro T T' hT _ _ hsame
  have hroot := hT.root
  rw [Chart.isRootType, h] at hroot ⊢
  rw [Category.same, Bool.and_eq_true] at hsame
  exact Typing.same_trans (Typing.same_symm hsame.1) hroot

variable [Scalar K] {chart : Chart K}

/-- The full parses of a complete chart, in the order of the chart. -/
theorem Complete.fullParses_eq_filter (h : t.Complete chart) : chart.fullParses =
    .ok ((chart.cellsOver ⟨0, t.tokens.length⟩).filter Cell.full) := by
  have hsize : chart.size = t.tokens.length := h.frames.size.trans t.size_blank
  have hspan : chart.hasSpan ⟨0, t.tokens.length⟩ = true ↔ t.tokens.length ≠ 0 := by
    rw [h.frames.hasSpan, hasSpan_iff]
    dsimp only
    omega
  rw [Chart.fullParses, hsize, Chart.cellsOver]
  split
  · rename_i hzero
    have hnone : chart.hasSpan ⟨0, t.tokens.length⟩ = false := by
      rw [← Bool.not_eq_true, hspan]
      omega
    simp [Chart.cells, Chart.beam, hnone, Except.map, Except.toOption]
  · rename_i hpos
    rw [Chart.cells_eq (hspan.2 (by omega))]
    rfl

/-- The full parses of a complete chart are the retained cells of the whole sentence with a root
type. -/
theorem Complete.fullParses_eq (h : t.Complete chart) : ∃ cs, chart.fullParses = .ok cs ∧
    ∀ c, c ∈ cs ↔ c.full = true ∧
      ∃ all, chart.cells ⟨0, t.tokens.length⟩ = .ok all ∧ c ∈ all := by
  refine ⟨_, h.fullParses_eq_filter, fun c => ?_⟩
  rw [List.mem_filter, Chart.mem_cellsOver, and_comm]

theorem Complete.mem_fullParses (h : t.Complete chart) {cs : List (Cell K)}
    (hcs : chart.fullParses = .ok cs) {c : Cell K} : c ∈ cs ↔ c.full = true ∧
      ∃ all, chart.cells ⟨0, t.tokens.length⟩ = .ok all ∧ c ∈ all := by
  obtain ⟨cs', hcs', hmem⟩ := h.fullParses_eq
  obtain rfl := Except.ok.inj (hcs.symm.trans hcs')
  exact hmem c

/-- The groups of the full parses. -/
theorem Complete.ofChart_eq (h : t.Complete chart) : ∃ cs ds, chart.fullParses = .ok cs ∧
    Derivation.ofChart chart = .ok ds ∧ Derivation.Groups cs ds ∧
      ds = byScore Derivation.score (Derivation.group cs) := by
  obtain ⟨cs, hcs, -⟩ := h.fullParses_eq
  exact ⟨cs, _, hcs, by rw [Derivation.ofChart, hcs]; rfl, ⟨byScore_perm _ _⟩, rfl⟩

/-- There is no group just if there is no full parse. -/
theorem Complete.ofChart_eq_nil_iff (h : t.Complete chart) :
    Derivation.ofChart chart = .ok [] ↔ chart.fullParses = .ok [] := by
  obtain ⟨cs, ds, hcs, hds, hgroups, rfl⟩ := h.ofChart_eq
  rw [hcs, hds, Except.ok.injEq, Except.ok.injEq]
  constructor
  · intro hnone
    rw [hnone] at hgroups
    refine List.eq_nil_iff_forall_not_mem.2 fun c hc => ?_
    obtain ⟨d, hd, -⟩ := hgroups.mem_iff.1 hc
    exact List.not_mem_nil hd
  · rintro rfl
    exact hgroups.perm.eq_nil

/-- A full parse stands for a derivation of the whole sentence with a root type. -/
theorem Complete.exists_isParse (h : t.Complete chart) {cs : List (Cell K)}
    (hcs : chart.fullParses = .ok cs) {c : Cell K} (hc : c ∈ cs) : ∃ T, t.IsParse T ∧
      T.category = c.category ∧ t.scoreTree T = .ok c.score := by
  obtain ⟨hfull, all, hall, hc⟩ := (h.mem_fullParses hcs).1 hc
  obtain ⟨T, hT, -, hcategory, hspan, hscore⟩ := h.exists_tree hall hc
  obtain ⟨hderives, -⟩ := h.derives hall hc
  refine ⟨T, ⟨hT, hspan, ?_⟩, hcategory, hscore⟩
  rw [hcategory]
  exact (hderives.full_iff.1 hfull).2

/-- Every derivation of the whole sentence with a root type has a full parse that stands for it. -/
theorem Complete.exists_fullParse (h : t.Complete chart) (hexhaustive : t.Exhaustive)
    (hroots : t.RootsAlike) {cs : List (Cell K)} (hcs : chart.fullParses = .ok cs) {T : Tree}
    (hT : t.IsParse T) : ∃ c ∈ cs, T.category.same c.category = true ∧
      (t.SkipsAlike → t.scoreTree T = .ok c.score) := by
  obtain ⟨all, hall, hcount⟩ := h.countP_describes hexhaustive hT.derivation
  rw [hT.span] at hall
  obtain ⟨c, hc, hdescribes⟩ := List.countP_pos_iff.1 (hcount ▸ Nat.one_pos)
  obtain ⟨hderives, hcspan⟩ := h.derives hall hc
  have hsame := Tree.category_same_of_describes hdescribes
  obtain ⟨T', hT', -, hcategory, hspan, -⟩ := h.exists_tree hall hc
  have hroot := hroots T T' hT hT' hspan (hcategory ▸ hsame)
  rw [hcategory] at hroot
  have hfull := hderives.full_iff.2 ⟨hcspan, hroot⟩
  refine ⟨c, (h.mem_fullParses hcs).2 ⟨hfull, all, hall, hc⟩, hsame, ?_⟩
  intro hskips
  exact hderives.scoreTree_eq hskips hT.derivation hdescribes

/-- Whether a score is the greatest one of some trees: one of them has it, and none has a greater
one. -/
structure Greatest (t : Sentence K) (P : Tree → Prop) (x : K) : Prop where
  reached : ∃ T, P T ∧ t.scoreTree T = .ok x
  bound : ∀ T, P T → ∃ y, t.scoreTree T = .ok y ∧ Scalar.lt x y = false

theorem Greatest.not_lt {P : Tree → Prop} {x y : K} (h : t.Greatest P x) {T : Tree} (hT : P T)
    (hy : t.scoreTree T = .ok y) : Scalar.lt x y = false := by
  obtain ⟨y', hy', hbound⟩ := h.bound T hT
  obtain rfl := Except.ok.inj (hy.symm.trans hy')
  exact hbound

section

variable {cs : List (Cell K)} {ds : List (Derivation K)}

/-- The groups have the categories of the derivations of the whole sentence with a root type. -/
theorem Complete.exists_group (h : t.Complete chart) (hcs : chart.fullParses = .ok cs)
    (hds : Derivation.Groups cs ds) (hexhaustive : t.Exhaustive) (hroots : t.RootsAlike) {T : Tree}
    (hT : t.IsParse T) : ∃ d ∈ ds, d.category.same T.category = true := by
  obtain ⟨c, hc, hsame, -⟩ := h.exists_fullParse hexhaustive hroots hcs hT
  obtain ⟨d, hd, hc⟩ := hds.mem_iff.1 hc
  exact ⟨d, hd, Category.same_trans (hds.category_same hd hc) (Category.same_symm hsame)⟩

/-- A cell of a group stands for a derivation of the whole sentence with a root type. -/
theorem Complete.isParse_of_mem_cells (h : t.Complete chart) (hcs : chart.fullParses = .ok cs)
    (hds : Derivation.Groups cs ds) {d : Derivation K} (hd : d ∈ ds) {c : Cell K}
    (hc : c ∈ d.cells) : ∃ T, (t.IsParse T ∧ d.category.same T.category = true) ∧
      t.scoreTree T = .ok c.score := by
  obtain ⟨T, hT, hcategory, hscore⟩ := h.exists_isParse hcs (hds.mem_iff.2 ⟨d, hd, hc⟩)
  exact ⟨T, ⟨hT, hcategory ▸ hds.category_same hd hc⟩, hscore⟩

/-- The score of a group is that of one of its cells. -/
theorem score_mem (d : Derivation K) : ∃ c ∈ d.cells, c.score = d.score := by
  have hmem := Scalar.maximum_mem d.first.score (d.others.map Cell.score)
  rw [← List.map_cons (f := Cell.score)] at hmem
  exact List.mem_map.1 hmem

/-- A group with defined scores has best cells. -/
theorem best_ne_nil_of_defined {d : Derivation K} (h : ∀ c ∈ d.cells, Scalar.Defined c.score) :
    d.best ≠ [] := by
  obtain ⟨c, hc, hscore⟩ := score_mem d
  exact List.ne_nil_of_mem (List.mem_filter.2 ⟨hc, hscore ▸ h c hc⟩)

variable [OrderedScalar K]

/-- The score of a group is the greatest one of the derivations of its category. -/
theorem Complete.greatest_score (h : t.Complete chart) (hcs : chart.fullParses = .ok cs)
    (hds : Derivation.Groups cs ds) (hexhaustive : t.Exhaustive) (hroots : t.RootsAlike)
    (hskips : t.SkipsAlike) {d : Derivation K} (hd : d ∈ ds) :
    t.Greatest (fun T => t.IsParse T ∧ d.category.same T.category = true) d.score := by
  constructor
  · obtain ⟨c, hc, hscore⟩ := score_mem d
    obtain ⟨T, hT, hx⟩ := h.isParse_of_mem_cells hcs hds hd hc
    exact ⟨T, hT, hscore ▸ hx⟩
  · rintro T ⟨hT, hsame⟩
    obtain ⟨c, hc, hsame', hx⟩ := h.exists_fullParse hexhaustive hroots hcs hT
    have hmem := hds.mem_cells hd hc (Category.same_trans hsame hsame')
    refine ⟨c.score, hx hskips, ?_⟩
    exact Scalar.not_lt_maximum _ _ _ (List.mem_map_of_mem (f := Cell.score) hmem)

/-- What the groups of the full parses are: groups of different categories, those of the derivations
of the whole sentence with a root type. -/
structure Lists (t : Sentence K) (ds : List (Derivation K)) : Prop where
  apart : ds.Pairwise fun d d' => d.category.same d'.category = false
  complete : ∀ T, t.IsParse T → ∃ d ∈ ds, d.category.same T.category = true
  sound : ∀ d ∈ ds, ∃ T, t.IsParse T ∧ d.category.same T.category = true

/-- The score of the best groups is the greatest one of all. -/
theorem greatest_of_mem_best (hlists : t.Lists ds)
    (hsorted : ds.Pairwise fun d d' => Scalar.lt d.score d'.score = false)
    (hgreatest : ∀ d ∈ ds,
      t.Greatest (fun T => t.IsParse T ∧ d.category.same T.category = true) d.score)
    (hdefined : ∀ T, t.IsParse T → ∀ x, t.scoreTree T = .ok x → Scalar.Defined x) :
    ((∃ T, t.IsParse T) → Parse.best (ds.map .derived) ≠ []) ∧
      ∀ q ∈ Parse.best (ds.map .derived), t.Greatest t.IsParse q.score := by
  have hscores : ∀ d ∈ ds, Scalar.Defined d.score := by
    intro d hd
    obtain ⟨T, hT, hx⟩ := (hgreatest d hd).reached
    exact hdefined T hT.1 _ hx
  have hparses : ∀ q ∈ ds.map Parse.derived, Scalar.Defined q.score := List.forall_mem_map.2 hscores
  constructor
  · rintro ⟨T, hT⟩
    obtain ⟨d, hd, -⟩ := hlists.complete T hT
    exact Parse.best_ne_nil hparses (List.ne_nil_of_mem (List.mem_map_of_mem hd))
  · intro q hq
    have hranked := Parse.ranked_of_pairwise hparses (List.pairwise_map.2 hsorted)
    obtain ⟨hmem, hbest⟩ := (hranked.mem_best q).1 hq
    obtain ⟨d, hd, rfl⟩ := List.mem_map.1 hmem
    obtain ⟨T, hT, hx⟩ := (hgreatest d hd).reached
    refine ⟨⟨T, hT.1, hx⟩, fun T' hT' => ?_⟩
    obtain ⟨d', hd', hsame⟩ := hlists.complete T' hT'
    obtain ⟨y, hy, hbound⟩ := (hgreatest d' hd').bound T' ⟨hT', hsame⟩
    have hnot := Scalar.not_lt_of_le (hbest _ (List.mem_map_of_mem hd'))
    exact ⟨y, hy, Scalar.not_lt_trans (hscores d hd) (hscores d' hd') (hdefined T' hT' y hy)
      hnot hbound⟩

end

end Sentence

end Categorial
