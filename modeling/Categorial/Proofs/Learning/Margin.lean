import Categorial.Learning.Learner
import Categorial.Proofs.Lexicon.Growth
import Categorial.Proofs.Parsing.Executed
import Categorial.Proofs.Parsing.Linear

/-!
The margin of a move of the weights, over rational numbers. Main statement: if the score of every
parse of an item is the inner product of the weights with its features, the inner product of the
weights with the direction of the move is at most the margin. Where no token may be skipped, parses
are scored like that if there are weights for the entries of the model.
-/

namespace Categorial

/-- Whether the score of a parse is the inner product of the weights with its features. -/
def Parse.Linear (m : Model Rat) (q : Parse Rat) : Prop :=
  ∃ v, q.features m = .ok v ∧ q.score = m.theta.dot v

namespace Sentence

variable {t : Sentence Rat} {chart : Chart Rat}

/-- Without skipped tokens, the entries of a derivation are entries of the lexicon. -/
theorem Derives.stored (hskips : t.parser.config.skipsWords = false) {c : Cell Rat}
    (h : t.Derives c) : ∀ e ∈ c.entries, ∃ tokens, e ∈ t.view.get tokens := by
  induction h with
  | entry _ hentries he =>
    intro e' he'
    rw [leaf, Cell.entries_lexical, List.mem_singleton] at he'
    subst he'
    rcases (mem_entriesAt hentries).1 he with he | ⟨hskips', -⟩
    · exact ⟨_, he⟩
    · rw [hskips] at hskips'
      cases hskips'
  | pair _ _ _ _ _ _ ihl ihr =>
    rw [node, Cell.entries_pair]
    intro e he
    exact (List.mem_append.1 he).elim (ihl e) (ihr e)
  | shift _ _ _ _ _ ih =>
    rw [node, Cell.entries_single]
    exact ih

end Sentence

namespace Parser

variable {p : Parser Rat} {m : Model Rat} {tokens : List String} {options : ParseOptions}

/-- The derivations of a parse without skipped tokens are linear, if there are weights for the
entries of the model. -/
theorem linear_of_chart (hskips : p.config.skipsWords = false)
    (hweighs : ∀ e ∈ m.lexicon.entries, m.Weighs e) {chart : Chart Rat}
    (hchart : (p.chart m tokens .plain).result = .ok chart) {ds : List (Derivation Rat)}
    (hds : Derivation.ofChart chart = .ok ds) :
    ∀ d ∈ ds, ∃ v, d.features m = .ok v ∧ d.score = m.theta.dot v := by
  obtain ⟨t, ht⟩ := exists_sentence hchart
  have hcomplete := complete_of_chart ht (Or.inl hchart)
  have hview : t.view = .single m.lexicon := (view_of_sentence ht).1
  obtain ⟨rfl, rfl, -⟩ := parts_of_sentence ht
  intro d hd
  refine hcomplete.score_derivation hds hd ?_
  intro c hc e he
  obtain ⟨s, cs, hcs, hin⟩ := hcomplete.retained_of_mem hds hd (List.mem_filter.1 hc).1
  obtain ⟨tokens, he⟩ := (hcomplete.derives hcs hin).1.stored hskips e he
  rw [hview, LexiconView.get, Lexicon.get_eq_filter] at he
  exact hweighs e (List.mem_filter.1 he).1

end Parser

/-- The parses of an analysis without skipped tokens are linear, if there are weights for the
entries of the model. -/
theorem Analyzer.linear_of_analyze {a : Analyzer Rat} {m : Model Rat}
    (hskips : a.parser.config.skipsWords = false)
    (hweighs : ∀ e ∈ m.lexicon.entries, m.Weighs e) {tokens : List String} {state : Value}
    {analysis : Analysis Rat}
    (h : (a.analyze m tokens state .plain).result = .ok analysis) :
    ∀ q ∈ analysis.parses, q.Linear m := by
  obtain ⟨hchart, ds, hds, hparses⟩ := parses_of_analyze h
  have hlinear := Parser.linear_of_chart hskips hweighs hchart hds
  intro q hq
  obtain ⟨d, hd, hgives⟩ := (hparses q).1 hq
  rw [Gives] at hgives
  split at hgives
  · rw [hgives]
    exact hlinear d hd
  · obtain ⟨v, -, j, hj, rfl⟩ := hgives
    exact JointParse.features_eq hj (hlinear d hd)

namespace Perceptron

variable {m : Model Rat} {p : Perceptron Rat} {item : Item}

/-- The mean of the features of linear parses is the mean of vectors that explain their scores. -/
theorem exists_meanFeatures {qs : List (Parse Rat)} (hne : qs ≠ [])
    (hlinear : ∀ q ∈ qs, q.Linear m) :
    ∃ vs, meanFeatures m qs = .ok (.mean vs) ∧ vs ≠ [] ∧
      ∀ v ∈ vs, ∃ q ∈ qs, q.score = m.theta.dot v := by
  obtain ⟨vs, hvs, hnonempty, hall⟩ := SparseVector.exists_mapM hlinear
  refine ⟨vs, ?_, hnonempty hne, hall⟩
  rw [meanFeatures, hvs]
  rfl

/-- The parses that reach the greatest score are among the parses, and all have this score. -/
theorem score_of_mem_top {qs : List (Parse Rat)} {q q' : Parse Rat} (hq : q ∈ Parse.top qs)
    (hq' : q' ∈ Parse.top qs) : q ∈ qs ∧ q.score = q'.score := by
  cases qs with
  | nil => cases hq
  | cons r rs =>
    obtain ⟨-, hsame⟩ := List.mem_filter.1 hq
    obtain ⟨-, hsame'⟩ := List.mem_filter.1 hq'
    exact ⟨Parse.mem_of_mem_top hq, (beq_iff_eq.1 hsame).trans (beq_iff_eq.1 hsame').symm⟩

/-- A direction goes from the mean of the invalid parses within the margin, of which there are some,
to the mean of the best valid parses. -/
theorem parts_of_direction? {parses : List (Parse Rat)} {delta : SparseVector Rat}
    (h : p.direction? m item parses = .ok (some delta)) :
    ∃ judged good goods bads towards away,
      (parses.mapM fun q => (item.isValid q.result).map fun valid => (q, valid)) = .ok judged ∧
      Parse.top ((judged.filter (·.2)).map (·.1)) = good :: goods ∧
      bads = (judged.filter fun q => !q.2 && good.score - p.margin ≤ q.1.score).map (·.1) ∧
      bads ≠ [] ∧ meanFeatures m (good :: goods) = .ok towards ∧
      meanFeatures m bads = .ok away ∧ delta = (towards.sub away).dropZeros 0 ∧
      delta.size ≠ 0 := by
  unfold direction? at h
  obtain ⟨judged, hjudged, h⟩ := bind_eq_ok.1 h
  dsimp only at h
  split at h
  · split at h <;> cases h
  · rename_i good goods htop
    obtain ⟨threshold, hthreshold, h⟩ := bind_eq_ok.1 h
    obtain rfl : good.score - p.margin = threshold := Except.ok.inj hthreshold
    split at h
    · cases h
    · rename_i hbads
      obtain ⟨towards, htowards, h⟩ := bind_eq_ok.1 h
      obtain ⟨away, haway, h⟩ := bind_eq_ok.1 h
      dsimp only [pure, Except.pure] at h
      split at h
      · cases h
      · rename_i hsize
        obtain rfl := Option.some.inj (Except.ok.inj h)
        refine ⟨judged, good, goods, _, towards, away, hjudged, htop, rfl, ?_, htowards, haway,
          rfl, hsize⟩
        simpa [Scalar.le] using hbads

/-- The parses that were judged are the parses of the item. -/
theorem map_fst_of_judged {valid : Parse Rat → Except Fault Bool} {parses : List (Parse Rat)}
    {judged : List (Parse Rat × Bool)}
    (h : (parses.mapM fun q => (valid q).map fun b => (q, b)) = .ok judged) :
    judged.map (·.1) = parses := by
  induction parses generalizing judged with
  | nil =>
    obtain rfl := Except.ok.inj h
    rfl
  | cons q parses ih =>
    rw [List.mapM_cons] at h
    obtain ⟨first, hfirst, h⟩ := bind_eq_ok.1 h
    obtain ⟨rest, hrest, h⟩ := bind_eq_ok.1 h
    obtain rfl := Except.ok.inj h
    obtain ⟨b, -, rfl⟩ := map_eq_ok.1 hfirst
    rw [List.map_cons, ih hrest]

/-- The weights score the direction of a move at most by the margin, if the parses are linear. -/
theorem dot_direction_le {parses : List (Parse Rat)} (hlinear : ∀ q ∈ parses, q.Linear m)
    {delta : SparseVector Rat} (h : p.direction? m item parses = .ok (some delta)) :
    m.theta.dot delta ≤ p.margin := by
  obtain ⟨judged, good, goods, bads, towards, away, hjudged, htop, hbads, hne, htowards, haway,
    rfl, -⟩ := parts_of_direction? h
  have hparse : ∀ {f : Parse Rat × Bool → Bool} {q}, q ∈ (judged.filter f).map (·.1) →
      q ∈ parses := by
    intro f q hq
    rw [← map_fst_of_judged hjudged]
    exact List.map_subset _ (List.filter_subset_self _) hq
  -- all good parses have the score of the first one
  have hgood : ∀ q ∈ good :: goods, q ∈ parses ∧ q.score = good.score := by
    intro q hq
    rw [← htop] at hq
    obtain ⟨hmem, hscore⟩ := score_of_mem_top hq (htop ▸ List.mem_cons_self)
    exact ⟨hparse hmem, hscore⟩
  -- no bad parse is behind it by more than the margin
  have hbad : ∀ q ∈ bads, q ∈ parses ∧ good.score - p.margin ≤ q.score := by
    intro q hq
    rw [hbads] at hq
    refine ⟨hparse hq, ?_⟩
    obtain ⟨r, hr, rfl⟩ := List.mem_map.1 hq
    exact of_decide_eq_true (Bool.and_eq_true_iff.1 (List.mem_filter.1 hr).2).2
  obtain ⟨vs, hvs, hvsne, hgoods⟩ := exists_meanFeatures (List.cons_ne_nil good goods)
    fun q hq => hlinear q (hgood q hq).1
  obtain ⟨ws, hws, hwsne, hbads⟩ := exists_meanFeatures hne fun q hq => hlinear q (hbad q hq).1
  obtain rfl : .mean vs = towards := Except.ok.inj (hvs.symm.trans htowards)
  obtain rfl : .mean ws = away := Except.ok.inj (hws.symm.trans haway)
  have htowards : m.theta.dot (.mean vs) = good.score := by
    refine SparseVector.dot_mean_of_forall_eq hvsne fun v hv => ?_
    obtain ⟨q, hq, hdot⟩ := hgoods v hv
    rw [← hdot, (hgood q hq).2]
  have haway : good.score - p.margin ≤ m.theta.dot (.mean ws) := by
    refine SparseVector.le_dot_mean hwsne fun w hw => ?_
    obtain ⟨q, hq, hdot⟩ := hbads w hw
    rw [← hdot]
    exact (hbad q hq).2
  rw [SparseVector.dot_dropZeros, SparseVector.dot_sub]
  linarith

end Perceptron

end Categorial
