import Categorial.Proofs.Parsing.Leaves
import Categorial.Proofs.Rule.Schema

/-!
Skipped tokens on either side of a category. A parser that is made to skip tokens gets the two rules
that absorb them if it has neither; with one of them it is left as it is. Main statement: unless a
rule ends the application of the others, it absorbs a skipped token on a side, just once, if it had
the rule of this side or no such rule, and not otherwise; so it absorbs them on both sides just if
it had both rules or none, and then every derivation absorbs all tokens before it and behind it.
-/

namespace Categorial

/-- How many of some results have a name and a category. -/
def RuleResult.times (name : RuleName) (c : Category) (results : List RuleResult) : Nat :=
  results.countP fun r => r.rule == name && r.category.same c

theorem RuleResult.times_append (name : RuleName) (c : Category) (results rest : List RuleResult) :
    times name c (results ++ rest) = times name c results + times name c rest :=
  List.countP_append

/-- Rules that absorb tokens on one side are the same. -/
theorem BinaryRule.same_skipping {d : Direction} {rule : BinaryRule} :
    (skipping d).same rule = true ↔ rule = skipping d := by
  cases rule with
  | skipping d' =>
    rw [same, beq_iff_eq, skipping.injEq]
    exact eq_comm
  | _ => simp [same]

/-- What a rule gives for a category with a skipped one before it or behind it. -/
def BinaryRule.applyBeside (rule : BinaryRule) (d : Direction) (skipped c : Category) :
    Traced (List RuleResult) :=
  match d with
  | .forward => rule.apply skipped c
  | .backward => rule.apply c skipped

theorem BinaryRule.isSkipping_iff {rule : BinaryRule} :
    rule.isSkipping = true ↔ ∃ d, rule = skipping d := by
  cases rule <;> simp [isSkipping]

namespace Grammar

variable {g : Grammar} {d : Direction} {bs : List BinaryRule} {us : List UnaryRule}

/-- The results for a category with a skipped one before it or behind it. -/
def applyBeside (g : Grammar) (d : Direction) (skipped c : Category) :
    Traced (List RuleResult) :=
  match d with
  | .forward => g.applyBinary skipped c
  | .backward => g.applyBinary c skipped

/-- The grammar without the rules that absorb skipped tokens. -/
def withoutSkipping (g : Grammar) : Grammar :=
  ⟨g.binary.filter fun rule => !rule.isSkipping, g.unary⟩

/-- Whether a grammar absorbs a skipped token on a side of a category: the category is a result of
itself and the token, and is one just once more than by the other rules. -/
def Absorbs (g : Grammar) (d : Direction) (skipped c : Category) : Prop :=
  ∃ results others,
    (g.applyBeside d skipped c).result = .ok results ∧
    (g.withoutSkipping.applyBeside d skipped c).result = .ok others ∧
    ⟨⟨"skip", d⟩, c⟩ ∈ results ∧
    RuleResult.times ⟨"skip", d⟩ c results = RuleResult.times ⟨"skip", d⟩ c others + 1

/-- What a rule contributes beside a skipped category. -/
def contributionBeside (d : Direction) (skipped c : Category) (rule : BinaryRule) :
    List RuleResult :=
  contribution (rule.applyBeside d skipped c)

theorem applyBeside_ok_iff {skipped c : Category} :
    (∃ results, (g.applyBeside d skipped c).result = .ok results) ↔
      ∀ rule ∈ g.binary, Regular (rule.applyBeside d skipped c) := by
  cases d <;> exact applyBinary_ok_iff

theorem applyBeside_result {skipped c : Category}
    (h : ∀ rule ∈ g.binary, Regular (rule.applyBeside d skipped c)) :
    (g.applyBeside d skipped c).result =
      .ok (g.binary.flatMap (contributionBeside d skipped c)) := by
  cases d <;> exact applyBinary_result h

section

variable {skipped c : Category}

theorem contributionBeside_skipping (d : Direction) (hskipped : skipped.isEmpty = true)
    (hc : c.hashable = true) :
    contributionBeside d skipped c (.skipping d) = [⟨⟨"skip", d⟩, c⟩] := by
  cases d <;>
    simp [contributionBeside, contribution, BinaryRule.applyBeside, BinaryRule.apply,
      BinaryRule.name, hskipped, hc]

/-- The rule of the other side gives results of its own name. -/
theorem times_contributionBeside_of_ne {d' : Direction} (h : d' ≠ d) (skipped c : Category) :
    RuleResult.times ⟨"skip", d⟩ c (contributionBeside d skipped c (.skipping d')) = 0 := by
  have hname : ∀ a b, ∀ r ∈ contribution ((BinaryRule.skipping d').apply a b),
      r.rule = ⟨"skip", d'⟩ := by
    intro a b r hr
    rw [contribution] at hr
    split at hr
    · rename_i hresults
      rcases BinaryRule.follows_of_apply (.skipping d') hresults with rfl | ⟨_, _, -, rfl⟩
      · cases hr
      · rw [List.mem_singleton.1 (List.mem_filter.1 hr).1, BinaryRule.name]
    · cases hr
  refine List.countP_eq_zero.2 fun r hr => ?_
  have hrule : r.rule = ⟨"skip", d'⟩ := by
    cases d with
    | forward => exact hname _ _ r hr
    | backward => exact hname _ _ r hr
  simp [hrule, h]

/-- Each rule of a side absorbs a token once. -/
theorem times_contributions (hskipped : skipped.isEmpty = true) (hc : c.hashable = true)
    (rules : List BinaryRule) :
    RuleResult.times ⟨"skip", d⟩ c (rules.flatMap (contributionBeside d skipped c)) =
      RuleResult.times ⟨"skip", d⟩ c
        ((rules.filter fun rule => !rule.isSkipping).flatMap (contributionBeside d skipped c)) +
      rules.countP (BinaryRule.skipping d).same := by
  induction rules with
  | nil => rfl
  | cons rule rules ih =>
    rw [List.flatMap_cons, RuleResult.times_append, ih, List.countP_cons]
    cases hskipping : rule.isSkipping with
    | false =>
      have hother : (BinaryRule.skipping d).same rule = false := by
        rw [Bool.eq_false_iff, Ne, BinaryRule.same_skipping]
        rintro rfl
        cases hskipping
      rw [List.filter_cons_of_pos (by simp [hskipping]), List.flatMap_cons,
        RuleResult.times_append, hother]
      simp only [Bool.false_eq_true, if_false]
      omega
    | true =>
      obtain ⟨d', rfl⟩ := BinaryRule.isSkipping_iff.1 hskipping
      rw [List.filter_cons_of_neg (by simp [hskipping])]
      by_cases hd : d' = d
      · subst hd
        rw [contributionBeside_skipping d' hskipped hc, if_pos (BinaryRule.same_skipping.2 rfl)]
        simp only [RuleResult.times, List.countP_singleton, beq_self_eq_true, Category.same_refl,
          Bool.and_self, if_true]
        omega
      · rw [times_contributionBeside_of_ne hd,
          if_neg fun h => hd (BinaryRule.skipping.inj (BinaryRule.same_skipping.1 h))]
        omega

end

/-- A grammar without repetitions has the rule of a side once or not at all. -/
theorem countP_skipping (hdistinct : g.binary.Pairwise fun a b => b.same a = false)
    (d : Direction) : g.binary.countP (BinaryRule.skipping d).same ≤ 1 := by
  rw [List.countP_eq_length_filter]
  have hpairwise := hdistinct.filter (BinaryRule.skipping d).same
  have hall : ∀ rule ∈ g.binary.filter (BinaryRule.skipping d).same, rule = .skipping d :=
    fun rule hrule => BinaryRule.same_skipping.1 (List.mem_filter.1 hrule).2
  match hfilter : g.binary.filter (BinaryRule.skipping d).same with
  | [] => exact Nat.zero_le 1
  | [_] => exact Nat.le_refl 1
  | a :: b :: rest =>
    rw [hfilter] at hpairwise hall
    have hab := List.rel_of_pairwise_cons hpairwise List.mem_cons_self
    rw [hall a List.mem_cons_self, hall b (List.mem_cons_of_mem _ List.mem_cons_self),
      BinaryRule.same_skipping.2 rfl] at hab
    cases hab

/-- A grammar without repetitions absorbs a skipped token on a side just if it has the rule of this
side and no rule ends the application of the others. -/
theorem absorbs_iff (hdistinct : g.binary.Pairwise fun a b => b.same a = false)
    {skipped c : Category} (hskipped : skipped.isEmpty = true) (hc : c.hashable = true) :
    g.Absorbs d skipped c ↔
      .skipping d ∈ g.binary ∧ ∀ rule ∈ g.binary, Regular (rule.applyBeside d skipped c) := by
  have hmem : 0 < g.binary.countP (BinaryRule.skipping d).same ↔ .skipping d ∈ g.binary := by
    rw [List.countP_pos_iff]
    constructor
    · rintro ⟨rule, hrule, hsame⟩
      exact BinaryRule.same_skipping.1 hsame ▸ hrule
    · exact fun hrule => ⟨_, hrule, BinaryRule.same_skipping.2 rfl⟩
  constructor
  · rintro ⟨results, others, hresults, hothers, -, htimes⟩
    have hregular := applyBeside_ok_iff.1 ⟨_, hresults⟩
    refine ⟨?_, hregular⟩
    obtain rfl := Except.ok.inj ((applyBeside_result hregular).symm.trans hresults)
    obtain rfl := Except.ok.inj
      ((applyBeside_result (applyBeside_ok_iff.1 ⟨_, hothers⟩)).symm.trans hothers)
    rw [times_contributions hskipped hc] at htimes
    dsimp only [withoutSkipping] at htimes
    exact hmem.1 (by omega)
  · rintro ⟨hrule, hregular⟩
    have hothers : ∀ rule ∈ g.withoutSkipping.binary, Regular (rule.applyBeside d skipped c) :=
      fun rule hrule => hregular rule (List.mem_filter.1 hrule).1
    refine ⟨_, _, applyBeside_result hregular, applyBeside_result hothers, ?_, ?_⟩
    · refine List.mem_flatMap.2 ⟨_, hrule, ?_⟩
      rw [contributionBeside_skipping d hskipped hc]
      exact List.mem_singleton.2 rfl
    · have hone := countP_skipping hdistinct d
      have hpos := hmem.2 hrule
      rw [times_contributions hskipped hc]
      dsimp only [withoutSkipping]
      omega

theorem pairwise_ofRules (bs : List BinaryRule) (us : List UnaryRule) :
    (ofRules bs us).binary.Pairwise fun a b => b.same a = false := by
  rw [ofRules_eq]
  exact pairwise_distinct (fun a b : BinaryRule => b.same a) bs

/-- A grammar has a rule that absorbs skipped tokens just if it has that of one of the sides. -/
theorem hasSkipping_iff : g.hasSkipping = true ↔ ∃ d, .skipping d ∈ g.binary := by
  rw [hasSkipping, List.any_eq_true]
  constructor
  · rintro ⟨rule, hrule, hskipping⟩
    obtain ⟨d, rfl⟩ := BinaryRule.isSkipping_iff.1 hskipping
    exact ⟨d, hrule⟩
  · rintro ⟨d, hrule⟩
    exact ⟨_, hrule, rfl⟩

end Grammar

/-- The entry that skips a token by the category of skipped tokens. -/
def Entry.skip (token : String) : Entry := Parser.skipper .empty [token]

namespace Tree

/-- A tree that absorbs the tokens behind it, the nearest one first. -/
def behind : Tree → List String → Tree
  | T, [] => T
  | T, token :: gap =>
    behind (pair ⟨(BinaryRule.skipping .backward).name, T.category⟩ T
      (entry (Entry.skip token) ⟨T.span.stop, T.span.stop + 1⟩)) gap

/-- A tree that absorbs the tokens before it, the nearest one first. -/
def ahead (T : Tree) : List String → Tree
  | [] => T
  | token :: lead =>
    pair ⟨(BinaryRule.skipping .forward).name, (T.ahead lead).category⟩
      (entry (Entry.skip token) ⟨(T.ahead lead).span.start - 1, (T.ahead lead).span.start⟩)
      (T.ahead lead)

variable (T : Tree) (gap lead : List String)

@[simp] theorem category_behind : (T.behind gap).category = T.category := by
  induction gap generalizing T with
  | nil => rfl
  | cons token gap ih => rw [behind, ih, category]

@[simp] theorem span_behind : (T.behind gap).span = ⟨T.span.start, T.span.stop + gap.length⟩ := by
  induction gap generalizing T with
  | nil => simp [behind]
  | cons token gap ih =>
    rw [behind, ih, span, span, List.length_cons]
    simp only [Span.mk.injEq, true_and]
    omega

@[simp] theorem entries_behind : (T.behind gap).entries = T.entries ++ gap.map Entry.skip := by
  induction gap generalizing T with
  | nil => simp [behind]
  | cons token gap ih => rw [behind, ih, entries, entries, List.append_assoc]; rfl

@[simp] theorem rules_behind : (T.behind gap).rules =
    List.replicate gap.length (BinaryRule.skipping .backward).name ++ T.rules := by
  induction gap generalizing T with
  | nil => rfl
  | cons token gap ih =>
    rw [behind, ih, rules, rules, List.append_nil, List.length_cons, List.replicate_succ',
      List.append_assoc, List.singleton_append]

/-- What absorbs tokens is no result on a single tree, unless it was one before. -/
theorem isShift_behind (h : T.isShift = false) : (T.behind gap).isShift = false := by
  induction gap generalizing T with
  | nil => exact h
  | cons token gap ih => exact ih _ rfl

@[simp] theorem category_ahead : (T.ahead lead).category = T.category := by
  induction lead with
  | nil => rfl
  | cons token lead ih => rw [ahead, category, ih]

@[simp] theorem span_ahead :
    (T.ahead lead).span = ⟨T.span.start - lead.length, T.span.stop⟩ := by
  induction lead with
  | nil => simp [ahead]
  | cons token lead ih =>
    rw [ahead, span, span, ih, List.length_cons]
    simp only [Span.mk.injEq, and_true]
    omega

@[simp] theorem entries_ahead : (T.ahead lead).entries = lead.map Entry.skip ++ T.entries := by
  induction lead with
  | nil => rfl
  | cons token lead ih => rw [ahead, entries, entries, ih]; rfl

@[simp] theorem rules_ahead : (T.ahead lead).rules =
    List.replicate lead.length (BinaryRule.skipping .forward).name ++ T.rules := by
  induction lead with
  | nil => rfl
  | cons token lead ih => rw [ahead, rules, rules, ih]; rfl

/-- A tree that absorbs all tokens before it and behind it. -/
def across (tokens : List String) (T : Tree) : Tree :=
  (T.behind (tokens.drop T.span.stop.toNat)).ahead (tokens.take T.span.start.toNat)

theorem category_across (tokens : List String) : (T.across tokens).category = T.category := by
  rw [across, category_ahead, category_behind]

theorem entries_across (tokens : List String) : (T.across tokens).entries =
    (tokens.take T.span.start.toNat).map Entry.skip ++ T.entries ++
      (tokens.drop T.span.stop.toNat).map Entry.skip := by
  rw [across, entries_ahead, entries_behind, List.append_assoc]

end Tree

namespace Parser

variable {K : Type} {bs : List BinaryRule} {us : List UnaryRule} {config : ParserConfig}

/-- A parser that is made to skip tokens has the rules that it was made with, and behind them both
that absorb skipped tokens if it was made with none of these. -/
theorem grammar_create (hskips : config.skipsWords = true) (ranking : Ranking K)
    (skipped : Category) (reports : Bool) :
    (create (.ofRules bs us) config ranking skipped reports).grammar =
      ⟨(Grammar.ofRules bs us).binary ++ if (Grammar.ofRules bs us).hasSkipping then [] else
          [.skipping .forward, .skipping .backward], (Grammar.ofRules bs us).unary⟩ := by
  rw [create, hskips]
  cases hown : (Grammar.ofRules bs us).hasSkipping with
  | false => rw [Grammar.withSkipping_ofRules hown]; rfl
  | true => simp

/-- The rules of a parser are without repetitions. -/
theorem pairwise_grammar_create (ranking : Ranking K) (skipped : Category) (reports : Bool) :
    (create (.ofRules bs us) config ranking skipped reports).grammar.binary.Pairwise
      fun a b => b.same a = false := by
  rw [create]
  dsimp only
  split
  · exact Grammar.pairwise_ofRules _ _
  · exact Grammar.pairwise_ofRules _ _

end Parser

namespace Sentence

variable {K : Type} {t : Sentence K} {T : Tree}

/-- What a sentence is whose tokens may be skipped on both sides of a category. -/
structure Skips (t : Sentence K) : Prop where
  skips : t.parser.config.skipsWords = true
  skipped : t.parser.skipped = .empty
  rules : ∀ d, .skipping d ∈ t.parser.grammar.binary

namespace Skips

variable {before after : List String} {token : String}

theorem isDerivation_skip (h : t.Skips) (htokens : t.tokens = before ++ token :: after) :
    t.IsDerivation (.entry (Entry.skip token) ⟨before.length, before.length + 1⟩) := by
  have hone : Parser.tokensOf t.tokens ⟨before.length, before.length + 1⟩ = [token] := by
    rw [htokens, ← List.singleton_append, ← List.append_assoc]
    exact Parser.tokensOf_between before [token] after
  have hskip := IsDerivation.skip (t := t) (s := ⟨before.length, before.length + 1⟩) ?_ h.skips ?_
  · rwa [hone, h.skipped] at hskip
  · rw [hasSpan_iff, htokens, List.length_append, List.length_cons]
    dsimp only
    omega
  · simp [Span.length]

/-- A derivation absorbs the token behind it, unless a rule ends the application of the others. -/
theorem isDerivation_pair_skip (h : t.Skips) (hT : t.IsDerivation T)
    (hkey : T.category.hashable = true)
    (hends : ∃ results, (t.parser.grammar.applyBinary T.category .empty).result = .ok results)
    {s : Span} (hskip : t.IsDerivation (.entry (Entry.skip token) s))
    (hjoin : T.span.stop = s.start) :
    t.IsDerivation (.pair ⟨(BinaryRule.skipping .backward).name, T.category⟩ T
      (.entry (Entry.skip token) s)) := by
  obtain ⟨results, hresults⟩ := hends
  refine .pair hT hskip hjoin hresults ((Grammar.mem_applyBinary hresults).2 ⟨?_, hkey⟩)
  exact ⟨_, h.rules .backward, _, rfl, List.mem_singleton.2 rfl⟩

/-- A derivation absorbs the token before it, unless a rule ends the application of the others. -/
theorem isDerivation_skip_pair (h : t.Skips) (hT : t.IsDerivation T)
    (hkey : T.category.hashable = true)
    (hends : ∃ results, (t.parser.grammar.applyBinary .empty T.category).result = .ok results)
    {s : Span} (hskip : t.IsDerivation (.entry (Entry.skip token) s))
    (hjoin : s.stop = T.span.start) :
    t.IsDerivation (.pair ⟨(BinaryRule.skipping .forward).name, T.category⟩
      (.entry (Entry.skip token) s) T) := by
  obtain ⟨results, hresults⟩ := hends
  refine .pair hskip hT hjoin hresults ((Grammar.mem_applyBinary hresults).2 ⟨?_, hkey⟩)
  exact ⟨_, h.rules .forward, _, rfl, List.mem_singleton.2 rfl⟩

theorem isDerivation_behind (h : t.Skips) (hT : t.IsDerivation T)
    (hkey : T.category.hashable = true) {gap : List String}
    (hends : gap ≠ [] →
      ∃ results, (t.parser.grammar.applyBinary T.category .empty).result = .ok results)
    (htokens : t.tokens = before ++ gap ++ after) (hstop : T.span.stop = before.length) :
    t.IsDerivation (T.behind gap) := by
  induction gap generalizing T before with
  | nil => exact hT
  | cons token gap ih =>
    rw [List.append_assoc, List.cons_append] at htokens
    have hskip := h.isDerivation_skip htokens
    rw [← hstop] at hskip
    rw [← List.singleton_append, ← List.append_assoc, ← List.append_assoc] at htokens
    have hends := hends (List.cons_ne_nil token gap)
    exact ih (h.isDerivation_pair_skip hT hkey hends hskip rfl) hkey (fun _ => hends) htokens
      (by simp [Tree.span, hstop])

theorem isDerivation_ahead (h : t.Skips) (hT : t.IsDerivation T)
    (hkey : T.category.hashable = true) {lead : List String}
    (hends : lead ≠ [] →
      ∃ results, (t.parser.grammar.applyBinary .empty T.category).result = .ok results)
    (htokens : t.tokens = before ++ lead ++ after)
    (hstart : T.span.start = before.length + lead.length) : t.IsDerivation (T.ahead lead) := by
  induction lead generalizing before with
  | nil => exact hT
  | cons token lead ih =>
    have hends := hends (List.cons_ne_nil token lead)
    have htokens' : t.tokens = before ++ [token] ++ lead ++ after := by simpa using htokens
    have hlead := ih (fun _ => hends) htokens' (by simp [hstart]; omega)
    rw [List.append_assoc, List.cons_append] at htokens
    have hspan : (T.ahead lead).span.start - 1 = before.length ∧
        (T.ahead lead).span.start = before.length + 1 := by
      rw [Tree.span_ahead, hstart, List.length_cons]
      dsimp only
      omega
    refine h.isDerivation_skip_pair hlead ?_ ?_ ?_ rfl
    · rwa [Tree.category_ahead]
    · rwa [Tree.category_ahead]
    · rw [hspan.1, hspan.2]
      exact h.isDerivation_skip htokens

/-- A derivation absorbs all other tokens of the sentence, unless a rule ends the application of the
others. -/
theorem isDerivation_across (h : t.Skips) (hT : t.IsDerivation T)
    (hkey : T.category.hashable = true)
    (hends : ∀ d, ∃ results,
      (t.parser.grammar.applyBeside d .empty T.category).result = .ok results) :
    t.IsDerivation (T.across t.tokens) ∧ (T.across t.tokens).span = ⟨0, t.tokens.length⟩ := by
  obtain ⟨hstart, hlt, hstop⟩ := hasSpan_iff.1 hT.hasSpan
  have hbehind : t.IsDerivation (T.behind (t.tokens.drop T.span.stop.toNat)) := by
    have htokens : t.tokens =
        t.tokens.take T.span.stop.toNat ++ t.tokens.drop T.span.stop.toNat ++ [] := by simp
    refine h.isDerivation_behind hT hkey (fun _ => hends .backward) htokens ?_
    rw [List.length_take]
    omega
  constructor
  · have htokens : t.tokens =
        [] ++ t.tokens.take T.span.start.toNat ++ t.tokens.drop T.span.start.toNat := by simp
    refine h.isDerivation_ahead hbehind (by rwa [Tree.category_behind]) (fun _ => ?_) htokens ?_
    · rw [Tree.category_behind]
      exact hends .forward
    · rw [Tree.span_behind, List.length_take, List.length_nil]
      dsimp only
      omega
  · rw [Tree.across, Tree.span_ahead, Tree.span_behind, List.length_take, List.length_drop]
    simp only [Span.mk.injEq]
    omega

end Skips

end Sentence

namespace Parser

variable {K : Type} {bs : List BinaryRule} {us : List UnaryRule} {config : ParserConfig}

/-- Let a parser be made to skip tokens. Its rules are those it was made with, in their order, and
both rules that absorb skipped tokens behind them if it was made with none of these. So, unless a
rule ends the application of the others by a result that refuses to be a key with a fault that is
not of a type, it absorbs a skipped token on a side of a category just if it was made with the rule
of this side or with no such rule, and on both sides just if it was made with both rules or with
neither of them. Then a derivation of a part of a sentence becomes one of the whole sentence by
absorbing all tokens outside this part. -/
theorem skips_either_side (hskips : config.skipsWords = true) (ranking : Ranking K)
    (reports : Bool) :
    let g := Grammar.ofRules bs us
    let p := create g config ranking .empty reports
    p.grammar = ⟨g.binary ++
      if g.hasSkipping then [] else [.skipping .forward, .skipping .backward], g.unary⟩ ∧
    (∀ skipped c : Category, skipped.isEmpty = true → c.hashable = true →
      (∀ d, p.grammar.Absorbs d skipped c ↔ (.skipping d ∈ g.binary ∨ g.hasSkipping = false) ∧
        ∀ rule ∈ p.grammar.binary, Grammar.Regular (rule.applyBeside d skipped c)) ∧
      ((∀ d, p.grammar.Absorbs d skipped c) ↔
        (.skipping .forward ∈ g.binary ↔ .skipping .backward ∈ g.binary) ∧
        ∀ d, ∀ rule ∈ p.grammar.binary, Grammar.Regular (rule.applyBeside d skipped c))) ∧
    ∀ m tokens options t, p.sentence m tokens options = .ok t →
      ∀ T, t.IsDerivation T → T.category.hashable = true →
        (∀ d, p.grammar.Absorbs d .empty T.category) →
        t.IsDerivation (T.across tokens) ∧ (T.across tokens).span = ⟨0, tokens.length⟩ ∧
        (T.across tokens).category = T.category ∧
        (T.across tokens).entries = (tokens.take T.span.start.toNat).map Entry.skip ++ T.entries ++
          (tokens.drop T.span.stop.toNat).map Entry.skip := by
  intro g p
  have hgrammar : p.grammar = _ := grammar_create hskips ranking .empty reports
  have hdistinct : p.grammar.binary.Pairwise fun a b => b.same a = false :=
    pairwise_grammar_create ranking .empty reports
  have hrules : ∀ d, .skipping d ∈ p.grammar.binary ↔
      .skipping d ∈ g.binary ∨ g.hasSkipping = false := by
    intro d
    rw [hgrammar, List.mem_append]
    refine or_congr_right ?_
    cases g.hasSkipping <;> cases d <;> simp
  have hnone : g.hasSkipping = false ↔
      .skipping .forward ∉ g.binary ∧ .skipping .backward ∉ g.binary := by
    rw [Bool.eq_false_iff, Ne, Grammar.hasSkipping_iff]
    constructor
    · exact fun h => ⟨fun hf => h ⟨_, hf⟩, fun hb => h ⟨_, hb⟩⟩
    · rintro ⟨hf, hb⟩ ⟨d, hd⟩
      cases d with
      | forward => exact hf hd
      | backward => exact hb hd
  refine ⟨hgrammar, fun skipped c hskipped hc => ?_, ?_⟩
  · have habsorbs : ∀ d, p.grammar.Absorbs d skipped c ↔
        (.skipping d ∈ g.binary ∨ g.hasSkipping = false) ∧
          ∀ rule ∈ p.grammar.binary, Grammar.Regular (rule.applyBeside d skipped c) := by
      intro d
      rw [Grammar.absorbs_iff hdistinct hskipped hc, hrules]
    refine ⟨habsorbs, ?_⟩
    simp only [habsorbs, forall_and]
    refine and_congr_left fun _ => ?_
    rw [hnone]
    constructor
    · intro h
      have hf := h .forward
      have hb := h .backward
      tauto
    · intro h d
      cases d <;> tauto
  · intro m tokens options t ht T hT hkey habsorbs
    obtain ⟨hparser, -⟩ := parts_of_sentence ht
    obtain ⟨-, htokens⟩ := view_of_sentence ht
    have hall : t.Skips := ⟨hparser ▸ hskips, hparser ▸ rfl, fun d =>
      hparser ▸ ((Grammar.absorbs_iff hdistinct rfl hkey).1 (habsorbs d)).1⟩
    have hends : ∀ d, ∃ results,
        (t.parser.grammar.applyBeside d .empty T.category).result = .ok results := by
      intro d
      obtain ⟨results, -, hresults, -⟩ := habsorbs d
      exact ⟨results, hparser ▸ hresults⟩
    obtain ⟨hacross, hspan⟩ := hall.isDerivation_across hT hkey hends
    rw [htokens] at hacross hspan
    exact ⟨hacross, hspan, Tree.category_across T tokens, Tree.entries_across T tokens⟩

/-- A parser that is made with both rules, and with another one between them, keeps these and
absorbs skipped tokens on both sides. -/
theorem skips_either_side_own :
    let services := Services.calling .stock Services.usualRejections
    let rules := [.skipping .backward, .application .forward services, .skipping .forward]
    let config : ParserConfig := ⟨.int 50, none, true, .int 1⟩
    let p : Parser Rat := create (.ofRules rules []) config .structural .empty false
    config.skipsWords = true ∧ p.grammar.binary = rules ∧
      ∀ skipped c : Category, skipped.isEmpty = true → skipped.hashable = true →
        c.hashable = true → ∀ d, p.grammar.Absorbs d skipped c := by
  intro services rules config p
  have hrules : (Grammar.ofRules rules []).binary = rules := rfl
  obtain ⟨hgrammar, habsorbs, -⟩ :=
    @skips_either_side Rat rules [] config rfl .structural false
  have hbinary : p.grammar.binary = rules := by
    rw [hgrammar]
    rfl
  refine ⟨rfl, hbinary, fun skipped c hskipped hkey hc =>
    (habsorbs skipped c hskipped hc).2.2 ⟨?_, fun d rule hrule => ?_⟩⟩
  · rw [hrules]
    simp [rules]
  · have hschematic : rule.Schematic := by
      rw [hbinary] at hrule
      simp only [rules, List.mem_cons, List.not_mem_nil, or_false] at hrule
      rcases hrule with rfl | rfl | rfl
      · exact .skipping .backward
      · exact .application .forward services
      · exact .skipping .forward
    cases d with
    | forward => exact BinaryRule.regular_of_schematic hschematic hkey hc
    | backward => exact BinaryRule.regular_of_schematic hschematic hc hkey

/-- A parser that is made with the rule for the tokens before a category does not get the other one,
and a noun with a skipped token behind it gives nothing. -/
theorem skips_one_side :
    let config : ParserConfig := ⟨.int 50, none, true, .int 1⟩
    let p : Parser Rat := create (.ofRules [.skipping .forward] []) config .structural .empty false
    let noun : Category := ⟨some (.primitive "N"), .none⟩
    config.skipsWords = true ∧ Category.empty.isEmpty = true ∧ noun.hashable = true ∧
      (p.grammar.applyBinary noun .empty).result = .ok [] ∧
      ¬ p.grammar.Absorbs .backward .empty noun := by
  intro config p noun
  refine ⟨rfl, rfl, rfl, rfl, ?_⟩
  rintro ⟨results, -, hresults, -, hmem, -⟩
  obtain rfl := Except.ok.inj ((rfl : Except.ok [] = _).trans hresults)
  cases hmem

end Parser

end Categorial
