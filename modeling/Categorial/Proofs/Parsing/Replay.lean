import Categorial.Proofs.Chart.Walk
import Categorial.Proofs.Parsing.Completeness

/-!
One derivation in two sentences. A sentence affords what another one uses if it has the same entries
at the same spans, with the same scores. Main statement: if no beam was full, the chart of a
sentence has every derivation of another one whose entries it affords, as the same node with the
same score.
-/

namespace Categorial.Sentence

variable {K : Type} [Scalar K] {t t' : Sentence K}

/-- The leaves of a derivation are derivations. -/
theorem Derives.of_mem_leaves {c d : Cell K} (h : t.Derives c) (hd : d ∈ c.leaves) :
    t.Derives d := by
  induction h with
  | entry hs hentries he hscore =>
    rw [leaf, Cell.leaves_lexical, List.mem_singleton] at hd
    rw [hd]
    exact .entry hs hentries he hscore
  | pair _ _ _ _ _ _ ihl ihr =>
    rw [node, Cell.leaves_pair, List.mem_append] at hd
    exact hd.elim ihl ihr
  | shift _ _ _ _ _ ih =>
    rw [node, Cell.leaves_single] at hd
    exact ih hd

/-- Whether a sentence has an entry at a span that is the same as another one and has this score. -/
def Affords (t : Sentence K) (e : Entry) (s : Span) (score : K) : Prop :=
  ∃ e', t.IsDerivation (.entry e' s) ∧ e'.same e = true ∧ t.model.scoreEntry e' = .ok score

/-- A derivation of a sentence stands for a tree of any sentence that affords its entries and has
the same rules, with the same scores. -/
theorem Derives.replay (hgrammar : t'.parser.grammar = t.parser.grammar)
    (hcoherent : t.parser.grammar.Coherent)
    (hrules : ∀ rule, t'.model.scoreRule rule = t.model.scoreRule rule) {c : Cell K}
    (h : t.Derives c)
    (haffords : ∀ leaf ∈ c.leaves, ∀ e, leaf.entry? = some e →
      t'.Affords e leaf.span leaf.score) :
    ∃ T, t'.IsDerivation T ∧ T.describes c = true ∧ T.span = c.span ∧
      t'.scoreTree T = .ok c.score := by
  have hnode : ∀ scores rule, t'.scoreNode scores rule = t.scoreNode scores rule := by
    intro scores rule
    rw [scoreNode, scoreNode, hrules]
  induction h with
  | @entry s entries e score hs hentries he hscore =>
    rw [leaf, Cell.leaves_lexical] at haffords
    obtain ⟨e', hderivation, hsame, hscore'⟩ :=
      haffords _ (List.mem_singleton_self _) e rfl
    exact ⟨.entry e' s, hderivation, Tree.describes_entry.2 ⟨rfl, e, rfl, hsame⟩, rfl, hscore'⟩
  | @pair l r results res score _ _ hjoin hresults hres hscore ihl ihr =>
    rw [node, Cell.leaves_pair] at haffords
    obtain ⟨L, hL, hl, hlspan, hx⟩ := ihl fun leaf hleaf =>
      haffords leaf (List.mem_append_left _ hleaf)
    obtain ⟨R, hR, hr, hrspan, hy⟩ := ihr fun leaf hleaf =>
      haffords leaf (List.mem_append_right _ hleaf)
    -- the children's categories are equal, not the same, so the rule is applied once more
    obtain ⟨results', hresults', hamong⟩ := hcoherent.binary _ _ _ _
      (Category.same_symm (Tree.category_same_of_describes hl))
      (Category.same_symm (Tree.category_same_of_describes hr)) _ hresults
    obtain ⟨res', hres', hrule, hcategory⟩ := hamong res hres
    refine ⟨.pair res' L R, ?_, ?_, ?_, ?_⟩
    · rw [← hgrammar] at hresults'
      exact .pair hL hR (by rw [hlspan, hrspan, hjoin]) hresults' hres'
    · exact Tree.describes_pair.2
        ⟨⟨hrule.symm, Category.same_symm hcategory⟩, l, r, rfl, hl, hr⟩
    · rw [Tree.span, hlspan, hrspan, node_span]
    · rw [scoreTree, hx, hy, ← hrule]
      exact (hnode _ _).trans hscore
  | @shift c results res score _ hone hresults hres hscore ih =>
    rw [node, Cell.leaves_single] at haffords
    obtain ⟨T, hT, hc, hspan, hx⟩ := ih haffords
    obtain ⟨results', hresults', hamong⟩ := hcoherent.unary _ _
      (Category.same_symm (Tree.category_same_of_describes hc)) _ hresults
    obtain ⟨res', hres', hrule, hcategory⟩ := hamong res hres
    refine ⟨.shift res' T, ?_, ?_, hspan, ?_⟩
    · rw [← hgrammar] at hresults'
      refine .shift hT ?_ hresults' hres'
      rw [← Bool.not_eq_true, Tree.isShift_iff hc]
      exact hone
    · exact Tree.describes_shift.2 ⟨⟨hrule.symm, Category.same_symm hcategory⟩, c, rfl, hc⟩
    · rw [scoreTree, hx, ← hrule]
      exact (hnode _ _).trans hscore

/-- The chart of a sentence that loses no derivation has every derivation of another sentence that
it can replay. -/
theorem Complete.exists_again {chart : Chart K} (hcomplete : t'.Complete chart)
    (hexhaustive : t'.Exhaustive) (hskips : t'.SkipsAlike) {c : Cell K} (h : t.Derives c) {T : Tree}
    (hT : t'.IsDerivation T) (hdescribes : T.describes c = true)
    (hscore : t'.scoreTree T = .ok c.score) :
    ∃ cs, chart.cells T.span = .ok cs ∧ ∃ c' ∈ cs, c.sameNode c' = true ∧ c'.score = c.score := by
  obtain ⟨cs, hcs, hcount⟩ := hcomplete.countP_describes hexhaustive hT
  obtain ⟨c', hc', hdescribes'⟩ := List.countP_pos_iff.1 (hcount ▸ Nat.one_pos)
  obtain ⟨hderives, -⟩ := hcomplete.derives hcs hc'
  refine ⟨cs, hcs, c', hc', h.sameNode_of_describes hderives hdescribes hdescribes', ?_⟩
  have hscore' := hderives.scoreTree_eq hskips hT hdescribes'
  rw [hscore] at hscore'
  exact (Except.ok.inj hscore').symm

end Categorial.Sentence
