import Categorial.Parsing.Analyzer
import Categorial.Proofs.Model.Growth
import Categorial.Proofs.Parsing.Linear
import Categorial.Proofs.Parsing.Placements

/-!
Models that agree on a sentence. A parse reads a model through the entries that it has for the
tokens of each span, and through the scores of these entries and of rules. Main statement: over
rational numbers a parse with further entries gives the chart that a parse gives after these entries
were added to the model, if entries that are not the same share no key; further entries that the
model has already change nothing.
-/

namespace Categorial

/-- Folds of steps that agree on every element of a list are the same. -/
theorem foldlM_congr {M : Type → Type} [Monad M] {α β : Type} {f g : β → α → M β} {xs : List α}
    (h : ∀ b, ∀ a ∈ xs, f b a = g b a) (b : β) : xs.foldlM f b = xs.foldlM g b := by
  induction xs generalizing b with
  | nil => rfl
  | cons x xs ih =>
    rw [List.foldlM_cons, List.foldlM_cons, h b x List.mem_cons_self]
    refine bind_congr fun b' => ?_
    exact ih (fun b a ha => h b a (List.mem_cons_of_mem _ ha)) b'

namespace Parser

section

variable {p : Parser Rat} {m m' : Model Rat}

/-- The entries that skip a token of a sentence, if tokens may be skipped. -/
def skippedEntries (p : Parser Rat) (tokens : List String) : List Entry :=
  if p.config.skipsWords then tokens.map fun token => skipper p.skipped [token] else []

theorem mem_of_mem_skippers {skipped : Category} {tokens : List String} {xs : List (Entry × Span)}
    (hxs : skippers skipped tokens = .ok xs) {placed : Entry × Span} (hplaced : placed ∈ xs) :
    placed.1 ∈ tokens.map fun token => skipper skipped [token] := by
  cases tokens with
  | nil =>
    obtain rfl := Except.ok.inj hxs
    cases hplaced
  | cons token tokens =>
    rw [skippers_eq (hashable_of_skippers hxs), Except.ok.injEq] at hxs
    rw [← hxs] at hplaced
    obtain ⟨x, hx, rfl⟩ := List.mem_map.1 hplaced
    exact List.mem_map_of_mem (List.fst_mem_of_mem_zipIdx hx)

/-- Offering the entries of a sentence reads their scores alone. -/
theorem addEntries_congr {view view' : LexiconView} {tokens : List String}
    (hget : ∀ tokens, view.get tokens = view'.get tokens)
    (hentries : ∀ tokens, ∀ e ∈ view'.get tokens, m.scoreEntry e = m'.scoreEntry e)
    (hskipped : ∀ e ∈ p.skippedEntries tokens, m.scoreEntry e = m'.scoreEntry e)
    (chart : Chart Rat) :
    p.addEntries m view tokens chart = p.addEntries m' view' tokens chart := by
  have hoffer : ∀ placed : Entry × Span, m.scoreEntry placed.1 = m'.scoreEntry placed.1 →
      ∀ chart, p.offerEntry m chart placed = p.offerEntry m' chart placed := by
    intro placed hscore chart
    simp only [offerEntry, hscore]
  have hplacements : placements view tokens = placements view' tokens := by
    rw [placements_eq, placements_eq]
    simp only [hget]
  rw [addEntries, addEntries, hplacements]
  have hplaced : ∀ chart, ∀ placed ∈ placements view' tokens,
      p.offerEntry m chart placed = p.offerEntry m' chart placed := by
    intro chart placed hmem
    refine hoffer placed ?_ chart
    rw [placements] at hmem
    obtain ⟨s, -, hmem⟩ := List.mem_flatMap.1 hmem
    obtain ⟨e, he, rfl⟩ := List.mem_map.1 hmem
    exact hentries _ e he
  rw [foldlM_congr hplaced chart]
  refine bind_congr fun chart => ?_
  split
  · rename_i hskips
    rw [skippedEntries, if_pos hskips] at hskipped
    cases hxs : skippers p.skipped tokens with
    | error fault => rfl
    | ok xs =>
      have hskippers : ∀ chart, ∀ placed ∈ xs,
          p.offerEntry m chart placed = p.offerEntry m' chart placed := by
        intro chart placed hmem
        exact hoffer placed (hskipped _ (mem_of_mem_skippers hxs hmem)) chart
      simp only [bind, Traced.ofExcept]
      rw [foldlM_congr hskippers chart]
  · rfl

/-- Filling spans reads the scores of rules alone. -/
theorem fill_congr (hrules : ∀ rule, m.scoreRule rule = m'.scoreRule rule) :
    p.fill m = p.fill m' := by
  have hoffer : p.offerResult m = p.offerResult m' := by
    funext children chart r
    simp only [offerResult, hrules]
  have hcombine : p.combine m = p.combine m' := by
    funext chart pair
    simp only [combine, hoffer]
  have hcombineSpans : p.combineSpans m = p.combineSpans m' := by
    funext chart parts
    simp only [combineSpans, hcombine]
  have hshift : p.shift m = p.shift m' := by
    funext chart cell
    simp only [shift, hoffer]
  funext spans chart
  have hspan : p.fillSpan m = p.fillSpan m' := by
    funext chart s
    simp only [fillSpan, hcombineSpans, hshift]
  rw [fill, fill, hspan]

/-- A parse reads the entries for the tokens of each span, and the scores of entries and rules. -/
theorem chart_congr {tokens : List String} {extra extra' : Option Lexicon}
    (hget : ∀ tokens, (lexicon m extra).get tokens = (lexicon m' extra').get tokens)
    (hentries : ∀ tokens, ∀ e ∈ (lexicon m' extra').get tokens, m.scoreEntry e = m'.scoreEntry e)
    (hskipped : ∀ e ∈ p.skippedEntries tokens, m.scoreEntry e = m'.scoreEntry e)
    (hrules : ∀ rule, m.scoreRule rule = m'.scoreRule rule) (beamSize : Option Number) :
    p.chart m tokens ⟨extra, beamSize⟩ = p.chart m' tokens ⟨extra', beamSize⟩ := by
  rw [chart, chart]
  refine bind_congr fun chart => ?_
  rw [addEntries_congr hget hentries hskipped chart, fill_congr hrules]

end

end Parser

namespace Model

/-- Whether entries that share a key are the same. -/
def KeysApart (m : Model Rat) (es : List Entry) : Prop :=
  ∀ f ∈ m.lexical, ∀ e ∈ es, ∀ e' ∈ es, f.key e = f.key e' → e.same e' = true

instance (m : Model Rat) (es : List Entry) : Decidable (m.KeysApart es) :=
  inferInstanceAs (Decidable (∀ f ∈ m.lexical, ∀ e ∈ es, ∀ e' ∈ es,
    f.key e = f.key e' → e.same e' = true))

end Model

namespace Parser

theorem mem_entries_of_mem_union {l extra : Lexicon} {tokens : List String} {e : Entry}
    (h : e ∈ (LexiconView.union [.single l, .single extra]).get tokens) :
    e ∈ l.entries ++ extra.entries := by
  rw [LexiconView.get] at h
  have hmem := LexiconView.mem_of_mem_distinctEntries h
  simp only [LexiconView.getAll, LexiconView.get, List.append_nil, List.mem_append,
    Lexicon.get_eq_filter, List.mem_filter] at hmem
  exact List.mem_append.2 (hmem.imp And.left And.left)

/-- A parse with further entries gives the chart and the parses that a parse gives after these
entries were added to the model, if entries that are not the same, those that skip tokens included,
share no key. Further entries that the model has already change nothing. -/
theorem chart_extra_eq (p : Parser Rat) (m : Model Rat) (extra : Lexicon) (tokens : List String)
    (beamSize : Option Number) :
    (∀ m', (m.lexical.map (·.name)).Nodup → m.addEntries extra.entries = .ok m' →
      m.KeysApart (m.lexicon.entries ++ extra.entries ++ p.skippedEntries tokens) →
        p.chart m tokens ⟨some extra, beamSize⟩ = p.chart m' tokens ⟨none, beamSize⟩ ∧
        ∀ state, (Analyzer.mk p none).analyze m tokens state ⟨some extra, beamSize⟩ =
          (Analyzer.mk p none).analyze m' tokens state ⟨none, beamSize⟩) ∧
    ∀ fresh : Lexicon,
      fresh.entries = (extra.entries.filter fun e => !m.lexicon.contains e) →
        p.chart m tokens ⟨some extra, beamSize⟩ = p.chart m tokens ⟨some fresh, beamSize⟩ ∧
        (fresh.entries = [] →
          p.chart m tokens ⟨some extra, beamSize⟩ = p.chart m tokens ⟨none, beamSize⟩) := by
  refine ⟨fun m' hnames hadd hapart => ?_, fun fresh hfresh => ?_⟩
  · have hlearned := Model.learned_of_addEntries hadd
    have hget : ∀ tokens, (lexicon m (some extra)).get tokens = (lexicon m' none).get tokens := by
      intro tokens
      rw [lexicon, lexicon, Lexicon.get_union, LexiconView.get, hlearned.lexicon]
    have hscore : ∀ e ∈ m.lexicon.entries ++ extra.entries ++ p.skippedEntries tokens,
        m.scoreEntry e = m'.scoreEntry e := by
      intro e he
      refine (hlearned.scoreEntry_eq hnames fun f hf e' he' => ?_).symm
      exact hapart f hf e' (List.mem_append_left _ (List.mem_append_right _ he')) e he
    have hchart : p.chart m tokens ⟨some extra, beamSize⟩ = p.chart m' tokens ⟨none, beamSize⟩ := by
      refine chart_congr hget ?_ ?_ (fun rule => (hlearned.scoreRule_eq rule).symm) beamSize
      · intro tokens e he
        rw [← hget] at he
        exact hscore e (List.mem_append_left _ (mem_entries_of_mem_union he))
      · intro e he
        exact hscore e (List.mem_append_right _ he)
    refine ⟨hchart, fun state => ?_⟩
    simp only [Analyzer.analyze, hchart]
  · have hget : ∀ tokens, (lexicon m (some extra)).get tokens =
        (lexicon m (some fresh)).get tokens := by
      intro tokens
      rw [lexicon, lexicon, Lexicon.get_union, Lexicon.get_union, Lexicon.get_foldl_insert,
        Lexicon.get_foldl_insert, hfresh, List.filter_comm]
      refine (foldl_appendNew_filter m.lexicon.contains fun e he hcontains => ?_).symm
      rw [← of_decide_eq_true (List.mem_filter.1 he).2]
      exact hcontains
    refine ⟨chart_congr hget (fun _ _ _ => rfl) (fun _ _ => rfl) (fun _ => rfl) beamSize, ?_⟩
    intro hnone
    refine chart_congr ?_ (fun _ _ _ => rfl) (fun _ _ => rfl) (fun _ => rfl) beamSize
    intro tokens
    rw [hget, lexicon, lexicon, Lexicon.get_union, hnone, LexiconView.get, List.foldl_nil]

/-- An entry for the token `b`. -/
def otherEntry : Entry := ⟨["b"], ⟨some (.primitive "N"), .none⟩, .fixed, []⟩

/-- A lexicon with an entry that a model has and one that it lacks. -/
def furtherEntries : Lexicon := .ofList [Sentence.nounEntry, otherEntry]

theorem entries_further : (Lexicon.ofList [otherEntry]).entries =
    (furtherEntries.entries.filter fun e => !Sentence.weighedModel.lexicon.contains e) := by
  have hknown : Sentence.weighedModel.lexicon.contains Sentence.nounEntry = true := by
    decide +kernel
  have hnew : Sentence.weighedModel.lexicon.contains otherEntry = false := by decide +kernel
  have hentries : furtherEntries.entries = [Sentence.nounEntry, otherEntry] := rfl
  have hother : (Lexicon.ofList [otherEntry]).entries = [otherEntry] := rfl
  rw [hentries, hother, List.filter_cons_of_neg (by simp [hknown]),
    List.filter_cons_of_pos (by simp [hnew]), List.filter_nil]

/-- A parse with these entries is a parse after they were added, and one with the latter entry
alone; six cells are retained. -/
theorem chart_extra_eq_nouns : ∃ m' chart,
    (Sentence.weighedModel.lexical.map (·.name)).Nodup ∧
    Sentence.weighedModel.addEntries furtherEntries.entries = .ok m' ∧
    Sentence.weighedModel.KeysApart (Sentence.weighedModel.lexicon.entries ++
      furtherEntries.entries ++ Sentence.keepParser.skippedEntries ["a", "b"]) ∧
    Sentence.keepParser.chart Sentence.weighedModel ["a", "b"] ⟨some furtherEntries, none⟩ =
      chart ∧
    Sentence.keepParser.chart m' ["a", "b"] .plain = chart ∧
    Sentence.keepParser.chart Sentence.weighedModel ["a", "b"]
      ⟨some (.ofList [otherEntry]), none⟩ = chart ∧
    (chart.result.map Chart.retained).toOption = some 6 := by
  have hlearns : (Sentence.weighedModel.addEntries furtherEntries.entries).toOption.isSome =
      true := by decide +kernel
  cases hadd : Sentence.weighedModel.addEntries furtherEntries.entries with
  | error fault => simp [hadd, Except.toOption] at hlearns
  | ok m' =>
    have hnames : (Sentence.weighedModel.lexical.map (·.name)).Nodup := by decide
    have hapart : Sentence.weighedModel.KeysApart (Sentence.weighedModel.lexicon.entries ++
        furtherEntries.entries ++ Sentence.keepParser.skippedEntries ["a", "b"]) := by
      decide +kernel
    obtain ⟨hlearned, hknown⟩ := chart_extra_eq Sentence.keepParser Sentence.weighedModel
      furtherEntries ["a", "b"] none
    obtain ⟨hchart, -⟩ := hlearned m' hnames hadd hapart
    obtain ⟨hfresh, -⟩ := hknown _ entries_further
    exact ⟨m', _, hnames, rfl, hapart, rfl, hchart.symm, hfresh.symm, by decide +kernel⟩

/-- A model without entries that scores an entry by the number of its tokens. -/
def lengthModel : Model Rat :=
  ⟨.empty, [⟨"LEX", .length (.int 1) (.int 1)⟩], [], [], .empty⟩

/-- A lexicon with an entry of two tokens that has the category of skipped tokens. -/
def pairLexicon : Lexicon := .ofList [⟨["a", "b"], .empty, .fixed, []⟩]

/-- The scores of the cells that a parse retains for the first token. -/
def firstScores (outcome : Traced (Chart Rat)) : Option (List Rat) :=
  (outcome.result.bind fun chart => (chart.cells ⟨0, 1⟩).map (List.map Cell.score)).toOption

/-- An entry that skips a token with a blank in it can share its key with an entry of two tokens; it
has the weight of the latter once that was added. -/
theorem chart_extra_ne_blank : ∃ m',
    (lengthModel.lexical.map (·.name)).Nodup ∧
    lengthModel.addEntries pairLexicon.entries = .ok m' ∧
    lengthModel.KeysApart (lengthModel.lexicon.entries ++ pairLexicon.entries) ∧
    firstScores (Sentence.keepParser.chart lengthModel ["a b"] ⟨some pairLexicon, none⟩) =
      some [1] ∧
    firstScores (Sentence.keepParser.chart m' ["a b"] ⟨none, none⟩) = some [2] := by
  have hcheck : ((lengthModel.addEntries pairLexicon.entries).toOption.map fun m' =>
      firstScores (Sentence.keepParser.chart m' ["a b"] ⟨none, none⟩)) = some (some [2]) := by
    decide +kernel
  cases hadd : lengthModel.addEntries pairLexicon.entries with
  | error fault => simp [hadd, Except.toOption] at hcheck
  | ok m' =>
    rw [hadd] at hcheck
    exact ⟨m', by decide, rfl, by decide +kernel, by decide +kernel, Option.some.inj hcheck⟩

end Parser

end Categorial
