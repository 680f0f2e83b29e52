import Categorial.Proofs.Number.Order
import Categorial.Proofs.Parsing.Outcome

/-!
Parses whose beams were never full. Main statement: the chart has just one cell for every
derivation; so the groups of its full parses have the categories and the greatest scores of all
derivations of the sentence, if categories and entries that are equal are treated alike.
-/

namespace Categorial

/-- A parser has coherent rules if it is made with coherent rules, also if tokens may be skipped. -/
theorem Parser.coherent_create {K : Type} {g : Grammar} (hbinary : ∀ rule ∈ g.binary, rule.Coherent)
    (hunary : ∀ rule ∈ g.unary, rule.Coherent) (config : ParserConfig) (ranking : Ranking K)
    (skipped : Category) (reports : Bool) :
    (create g config ranking skipped reports).grammar.Coherent := by
  rw [create]
  dsimp only
  split
  · exact Grammar.coherent_withSkipping hbinary hunary
  · exact Grammar.coherent_of_rules hbinary hunary

namespace Sentence

variable {K : Type} [Scalar K] {t : Sentence K} {chart : Chart K}

/-- What a parse without cuts is: rules give equal results on equal categories, and no beam was
offered more cells than it may hold. -/
structure Uncut (p : Parser K) (m : Model K) (tokens : List String) (options : ParseOptions)
    (t : Sentence K) (chart : Chart K) : Prop where
  sentence : p.sentence m tokens options = .ok t
  reached : (p.chart m tokens options).result = .ok chart ∨ t.Reaches chart
  coherent : p.grammar.Coherent
  fits : ∃ k : Nat, t.blank.beamSize.whole = .ok k ∧ chart.fits k = true

theorem Uncut.complete {p : Parser K} {m : Model K} {tokens : List String} {options : ParseOptions}
    (h : Uncut p m tokens options t chart) : t.Complete chart :=
  Parser.complete_of_chart h.sentence h.reached

/-- A parse without cuts loses no derivation. -/
theorem Uncut.exhaustive {p : Parser K} {m : Model K} {tokens : List String}
    {options : ParseOptions} (h : Uncut p m tokens options t chart) : t.Exhaustive := by
  obtain ⟨k, hroom, hfits⟩ := h.fits
  refine h.complete.exhaustive ?_ hroom hfits
  rw [(Parser.parts_of_sentence h.sentence).1]
  exact h.coherent

/-- Runs on fixed inputs can be computed. -/
theorem exists_uncut (p : Parser K) (m : Model K) (tokens : List String) (options : ParseOptions)
    (k : Nat) (check : List (Derivation K) → Bool) (hcoherent : p.grammar.Coherent)
    (hroom : (options.beamSize.getD p.config.beamSize).whole = .ok k)
    (hcheck : ((p.chart m tokens options).result.toOption.any fun chart =>
      chart.fits k && (Derivation.ofChart chart).toOption.any check) = true) :
    ∃ t chart ds, Uncut p m tokens options t chart ∧ Derivation.ofChart chart = .ok ds ∧
      check ds = true := by
  cases hchart : (p.chart m tokens options).result with
  | error fault => simp [hchart, Except.toOption] at hcheck
  | ok chart =>
    obtain ⟨t, ht⟩ := Parser.exists_sentence hchart
    rw [hchart, Except.toOption, Option.any_some, Bool.and_eq_true] at hcheck
    obtain ⟨-, -, -, hbeam⟩ := Parser.parts_of_sentence ht
    cases hds : Derivation.ofChart chart with
    | error fault => simp [hds, Except.toOption] at hcheck
    | ok ds =>
      rw [hds, Except.toOption, Option.any_some] at hcheck
      have huncut : Uncut p m tokens options t chart :=
        ⟨ht, Or.inl hchart, hcoherent, k, hbeam ▸ hroom, hcheck.1⟩
      exact ⟨t, chart, ds, huncut, hds, hcheck.2⟩

theorem exists_greater {α : Type} {outcome : Except Fault K} {xs : List α} {score : α → K}
    (h : (outcome.toOption.any fun y => xs.any fun x => Scalar.lt (score x) y) = true) :
    ∃ y, outcome = .ok y ∧ ∃ x ∈ xs, Scalar.lt (score x) y = true := by
  cases outcome with
  | error fault => simp [Except.toOption] at h
  | ok y => exact ⟨y, rfl, by simpa [Except.toOption] using h⟩

variable [OrderedScalar K]

/-- If beams were never full, with the spans of one length in any order: every derivation has just
one cell of its span, and every retained cell stands for a derivation. Where derivations of equal
categories have root types alike, the groups of the full parses are those of the derivations of the
whole sentence. Where entries that skip tokens score as much as equal ones, the score of a group is
the greatest one of its category; and where no score of a full parse is undefined, that of the best
groups is the greatest one of all. -/
theorem derivations_retained {p : Parser K} {m : Model K} {tokens : List String}
    {options : ParseOptions} (h : Uncut p m tokens options t chart) :
    (∀ T, t.IsDerivation T → ∃ cs, chart.cells T.span = .ok cs ∧ cs.countP T.describes = 1) ∧
    (∀ s cs, chart.cells s = .ok cs → ∀ c ∈ cs, ∃ T, t.IsDerivation T ∧ T.span = s ∧
      T.describes c = true) ∧
    (t.RootsAlike → ∃ ds, Derivation.ofChart chart = .ok ds ∧ t.Lists ds ∧
      (t.SkipsAlike → (∀ d ∈ ds,
          t.Greatest (fun T => t.IsParse T ∧ d.category.same T.category = true) d.score) ∧
        ((∀ T, t.IsParse T → ∀ x, t.scoreTree T = .ok x → Scalar.Defined x) →
          ((∃ T, t.IsParse T) → Parse.best (ds.map .derived) ≠ []) ∧
            ∀ q ∈ Parse.best (ds.map .derived), t.Greatest t.IsParse q.score))) := by
  have hcomplete := Parser.complete_of_chart h.sentence h.reached
  have hgrammar : t.parser.grammar.Coherent := (Parser.parts_of_sentence h.sentence).1 ▸ h.coherent
  obtain ⟨k, hroom, hfits⟩ := h.fits
  have hexhaustive := hcomplete.exhaustive hgrammar hroom hfits
  refine ⟨fun T hT => hcomplete.countP_describes hexhaustive hT, ?_, fun hroots => ?_⟩
  · intro s cs hcs c hc
    obtain ⟨T, hT, hdescribes, -, hspan, -⟩ := hcomplete.exists_tree hcs hc
    exact ⟨T, hT, hspan, hdescribes⟩
  obtain ⟨cs, ds, hcs, hofChart, hds, hsort⟩ := hcomplete.ofChart_eq
  have hlists : t.Lists ds := by
    refine ⟨hds.apart, ?_, ?_⟩
    · intro T hT
      exact hcomplete.exists_group hcs hds hexhaustive hroots hT
    · intro d hd
      obtain ⟨c, hc, -⟩ := score_mem d
      obtain ⟨T, hT, -⟩ := hcomplete.isParse_of_mem_cells hcs hds hd hc
      exact ⟨T, hT⟩
  refine ⟨ds, hofChart, hlists, fun hskips => ?_⟩
  have hgreatest : ∀ d ∈ ds,
      t.Greatest (fun T => t.IsParse T ∧ d.category.same T.category = true) d.score :=
    fun d hd => hcomplete.greatest_score hcs hds hexhaustive hroots hskips hd
  refine ⟨hgreatest, fun hdefined => greatest_of_mem_best hlists ?_ hgreatest hdefined⟩
  have hscores : ∀ d ∈ Derivation.group cs, Scalar.Defined d.score := by
    intro d hd
    obtain ⟨T, hT, hx⟩ := (hgreatest d (hds.perm.mem_iff.2 hd)).reached
    exact hdefined T hT.1 _ hx
  rw [hsort]
  exact pairwise_byScore hscores

/-- A rule that makes skipped tokens noun phrases. -/
def nounShift : UnaryRule :=
  .shift .stock "noun" (some .empty) (some (.primitive "NP")) .none

/-- A parser with this rule that looks for noun phrases and may skip tokens. -/
def nounParser : Parser Rat :=
  .create (.ofRules [] [nounShift]) ⟨.int 6, some (some (.primitive "NP")), true, .int 1⟩
    .structural .empty false

/-- Two skipped tokens are a noun phrase by four derivations; each of them has a cell, and they make
up a single group. -/
theorem derivations_retained_noun : ∃ t chart ds,
    Uncut nounParser emptyModel ["a", "b"] .plain t chart ∧ Derivation.ofChart chart = .ok ds ∧
      ds.map (fun d => d.cells.length) = [4] ∧ t.Lists ds ∧ Parse.best (ds.map .derived) ≠ [] ∧
        ∀ q ∈ Parse.best (ds.map .derived), t.Greatest t.IsParse q.score := by
  have hcoherent : nounParser.grammar.Coherent := by
    refine Grammar.coherent_withSkipping ?_ ?_
    · intro rule hrule
      exact absurd (Grammar.madeOf_ofRules.binary rule hrule) List.not_mem_nil
    · intro rule hrule
      rw [List.mem_singleton.1 (Grammar.madeOf_ofRules.unary rule hrule)]
      exact UnaryRule.coherent_shift _ _ _ _
  obtain ⟨t, chart, ds, huncut, hds, hcheck⟩ := exists_uncut nounParser emptyModel ["a", "b"]
    .plain 6 (fun ds => ds.map (fun d => d.cells.length) == [4]) hcoherent rfl (by decide +kernel)
  obtain ⟨-, -, hgroups⟩ := derivations_retained huncut
  obtain ⟨-, hmodel, hroot, -⟩ := Parser.parts_of_sentence huncut.sentence
  obtain ⟨ds', hds', hlists, hscores⟩ := hgroups (rootsAlike_of_root hroot)
  obtain rfl := Except.ok.inj (hds.symm.trans hds')
  have hskips : t.SkipsAlike := by
    intro _ s _ _ e _ _
    rw [hmodel]
    rfl
  obtain ⟨-, hbest⟩ := hscores hskips
  obtain ⟨hne, hgreatest⟩ := hbest fun T _ x _ => defined_rat x
  refine ⟨t, chart, ds, huncut, hds, by simpa using hcheck, hlists, hne ?_, hgreatest⟩
  cases ds with
  | nil => simp at hcheck
  | cons d ds =>
    obtain ⟨T, hT, -⟩ := hlists.sound d List.mem_cons_self
    exact ⟨T, hT⟩

/-- A parser for a single token, without rules but those that absorb skipped tokens. -/
def wordParser (root : Option Typing) (skips : Bool) (skipped : Category) : Parser Number :=
  .create .empty ⟨.int 50, root, skips, .int 1⟩ .structural skipped false

/-- A model for the entries of a single token. -/
def wordModel (entries : List Entry) (weights : List (FeatureKey × Number)) : Model Number :=
  ⟨.ofList entries, [.default], [], [], .ofPairs weights⟩

theorem coherent_wordParser (root : Option Typing) (skips : Bool) (skipped : Category) :
    (wordParser root skips skipped).grammar.Coherent :=
  Parser.coherent_create (by simp [Grammar.empty]) (by simp [Grammar.empty]) _ _ _ _

/-- Whether the groups of a token lack a property, though no beam was full. -/
def Lacks (p : Parser Number) (m : Model Number)
    (good : Sentence Number → List (Derivation Number) → Prop) : Prop :=
  ∃ t chart ds, Uncut p m ["w"] .plain t chart ∧ Derivation.ofChart chart = .ok ds ∧ ¬ good t ds

/-- A token means a partial coordination, and is skipped by a primitive type of that name. -/
def namedParser : Parser Number := wordParser none true ⟨some (.primitive "C[NP]"), .text "a"⟩

def namedModel : Model Number :=
  wordModel [⟨["w"], ⟨some (.coordination (.primitive "NP")), .text "a"⟩, .fixed, []⟩] []

theorem lacks_category : Lacks namedParser namedModel fun t ds => t.Lists ds := by
  obtain ⟨t, chart, ds, huncut, hds, hcheck⟩ := exists_uncut namedParser namedModel ["w"] .plain 50
    List.isEmpty (coherent_wordParser _ _ _) rfl (by decide +kernel)
  refine ⟨t, chart, ds, huncut, hds, fun hlists => ?_⟩
  have hT : t.IsParse (.entry (Parser.skipper t.parser.skipped (Parser.tokensOf t.tokens ⟨0, 1⟩))
      ⟨0, 1⟩) := by
    obtain rfl := Except.ok.inj huncut.sentence
    exact ⟨.skip rfl rfl rfl, rfl, by decide +kernel⟩
  obtain ⟨d, hd, -⟩ := hlists.complete _ hT
  rw [List.isEmpty_iff.1 hcheck] at hd
  exact List.not_mem_nil hd

/-- A token means the number one at some cost, and is skipped by true, which is equal to it. -/
def equalParser : Parser Number := wordParser (some (some .empty)) true ⟨some .empty, .bool true⟩

def equalModel : Model Number :=
  wordModel [⟨["w"], ⟨some .empty, .int 1⟩, .fixed, []⟩] [(["LEX", "w", "EMPTY : 1"], .int (-5))]

theorem lacks_score : Lacks equalParser equalModel fun t ds => ∀ d ∈ ds,
    t.Greatest (fun T => t.IsParse T ∧ d.category.same T.category = true) d.score := by
  obtain ⟨t, chart, ds, huncut, hds, hcheck⟩ := exists_uncut equalParser equalModel ["w"] .plain 50
    (fun ds => (ds.all fun d => d.category.same equalParser.skipped) &&
        (equalModel.scoreEntry (Parser.skipper equalParser.skipped ["w"])).toOption.any fun y =>
          ds.any fun d => Scalar.lt d.score y)
    (coherent_wordParser _ _ _) rfl (by decide +kernel)
  rw [Bool.and_eq_true, List.all_eq_true] at hcheck
  obtain ⟨y, hy, d, hd, hlt⟩ := exists_greater hcheck.2
  refine ⟨t, chart, ds, huncut, hds, fun hgreatest => ?_⟩
  have hT : t.IsParse (.entry (Parser.skipper t.parser.skipped (Parser.tokensOf t.tokens ⟨0, 1⟩))
      ⟨0, 1⟩) := by
    obtain rfl := Except.ok.inj huncut.sentence
    exact ⟨.skip rfl rfl rfl, rfl, rfl⟩
  obtain rfl := Except.ok.inj huncut.sentence
  have hbound := (hgreatest d hd).not_lt ⟨hT, hcheck.1 d hd⟩ hy
  rw [hlt] at hbound
  exact Bool.noConfusion hbound

/-- An entry of a token with a type and no meaning. -/
def wordEntry (name : String) : Entry := ⟨["w"], ⟨some (.primitive name), .none⟩, .fixed, []⟩

/-- The score of the second one of three entries is undefined. -/
def undefinedModel : Model Number :=
  wordModel [wordEntry "A", wordEntry "N", wordEntry "S"]
    [(["LEX", "w", "A"], .int 1), (["LEX", "w", "N"], .real (0.0 / 0.0)),
      (["LEX", "w", "S"], .int 3)]

def entryParser : Parser Number := wordParser none false .empty

theorem lacks_best : Lacks entryParser undefinedModel fun t ds =>
    ∀ q ∈ Parse.best (ds.map .derived), t.Greatest t.IsParse q.score := by
  obtain ⟨t, chart, ds, huncut, hds, hcheck⟩ := exists_uncut entryParser undefinedModel ["w"]
    .plain 50 (fun ds =>
      (undefinedModel.scoreEntry (wordEntry "S")).toOption.any fun y =>
        (Parse.best (ds.map .derived)).any fun q => Scalar.lt q.score y)
    (coherent_wordParser _ _ _) rfl (by decide +kernel)
  obtain ⟨y, hy, q, hq, hlt⟩ := exists_greater hcheck
  refine ⟨t, chart, ds, huncut, hds, fun hgreatest => ?_⟩
  have hT : t.IsParse (.entry (wordEntry "S") ⟨0, 1⟩) := by
    obtain rfl := Except.ok.inj huncut.sentence
    refine ⟨.entry rfl ?_, rfl, by decide +kernel⟩
    exact List.mem_cons_of_mem _ (List.mem_cons_of_mem _ List.mem_cons_self)
  obtain rfl := Except.ok.inj huncut.sentence
  have hbound := (hgreatest q hq).not_lt hT hy
  rw [hlt] at hbound
  exact Bool.noConfusion hbound

/-- Without further conditions, a derivation may be taken for another one that is equal to it but
has no root type or a smaller score, and the first group need not be a best one. -/
theorem groups_lacking :
    (Lacks namedParser namedModel fun t ds => t.Lists ds) ∧
    (Lacks equalParser equalModel fun t ds => ∀ d ∈ ds,
      t.Greatest (fun T => t.IsParse T ∧ d.category.same T.category = true) d.score) ∧
    Lacks entryParser undefinedModel fun t ds =>
      ∀ q ∈ Parse.best (ds.map .derived), t.Greatest t.IsParse q.score :=
  ⟨lacks_category, lacks_score, lacks_best⟩

end Sentence

end Categorial
