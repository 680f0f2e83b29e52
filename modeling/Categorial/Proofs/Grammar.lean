import Categorial.Grammar
import Categorial.Proofs.Collection.Distinct
import Categorial.Proofs.Collection.Gather
import Categorial.Proofs.Meaning.Equality

/-!
Rules that fail and rules that give equal results on equal categories. Main statements: a fault of a
grammar is one, not of a type, with which a result of a rule refuses to be a key; a grammar gives
equal results on equal categories if each of its rules does, as what is the same as a key can be a
key; and the rules that absorb skipped tokens and those that change a type alone do.
-/

namespace Categorial

/-- Whether all results are among others, up to equality of their categories. -/
def RuleResult.Among (results results' : List RuleResult) : Prop :=
  ∀ r ∈ results, ∃ r' ∈ results', r.rule = r'.rule ∧ r.category.same r'.category = true

/-- Whether a rule gives equal results on equal categories. -/
def BinaryRule.Coherent (rule : BinaryRule) : Prop :=
  ∀ a a' b b' : Category, a.same a' = true → b.same b' = true →
    ∀ results, (rule.apply a b).result = .ok results →
      ∃ results', (rule.apply a' b').result = .ok results' ∧ RuleResult.Among results results'

/-- Whether a rule gives equal results on equal categories. -/
def UnaryRule.Coherent (rule : UnaryRule) : Prop :=
  ∀ a a' : Category, a.same a' = true → ∀ results, (rule.apply a).result = .ok results →
    ∃ results', (rule.apply a').result = .ok results' ∧ RuleResult.Among results results'

/-- The rules that absorb skipped tokens keep a category. -/
theorem BinaryRule.coherent_skipping (direction : Direction) : (skipping direction).Coherent := by
  intro a a' b b' ha hb results hresults
  cases direction with
  | forward =>
    obtain rfl := Except.ok.inj hresults
    refine ⟨_, rfl, ?_⟩
    rw [← Category.isEmpty_eq_of_same ha]
    split
    · simp [RuleResult.Among, hb]
    · simp [RuleResult.Among]
  | backward =>
    obtain rfl := Except.ok.inj hresults
    refine ⟨_, rfl, ?_⟩
    rw [← Category.isEmpty_eq_of_same hb]
    split
    · simp [RuleResult.Among, ha]
    · simp [RuleResult.Among]

/-- A rule that changes a type alone keeps the meaning. -/
theorem UnaryRule.coherent_shift (I : Interpretation) (label : String) (source target : Typing) :
    (shift I label source target .none).Coherent := by
  intro a a' ha results hresults
  simp only [Category.same, Bool.and_eq_true] at ha
  have htype : a.type.same source = a'.type.same source :=
    Bool.eq_iff_iff.2 ⟨Typing.same_trans (Typing.same_symm ha.1), Typing.same_trans ha.1⟩
  simp only [UnaryRule.apply, Value.isNone, Bool.true_or, if_true] at hresults ⊢
  rw [htype] at hresults
  split at hresults
  · rename_i hsource
    obtain rfl := Except.ok.inj hresults
    rw [if_pos hsource]
    exact ⟨_, rfl, by simp [RuleResult.Among, Category.same, Typing.same_refl, ha.2]⟩
  · rename_i hsource
    obtain rfl := Except.ok.inj hresults
    rw [if_neg hsource]
    exact ⟨_, rfl, by simp [RuleResult.Among]⟩

namespace Grammar

/-- Whether a fault, not of a type, is the one with which a result of a rule refuses to be a key. -/
def Strays (outcome : Traced (List RuleResult)) (fault : Fault) : Prop :=
  ∃ results, outcome.result = .ok results ∧
    ∃ r ∈ results, r.category.meaning.checkKey = .error fault

theorem regular_iff {outcome : Traced (List RuleResult)} :
    Regular outcome ↔ ∀ fault, ¬ Strays outcome fault := by
  simp only [Regular, Strays, Value.refusesByType_iff]
  constructor
  · rintro h fault ⟨results, hresults, r, hr, hfault⟩
    exact h results hresults r hr fault hfault
  · intro h results hresults r hr fault hfault
    exact h fault ⟨results, hresults, r, hr, hfault⟩

/-- A fault while results are kept is the one with which a result refuses to be a key. -/
theorem exists_of_keepKeys_error {results : List RuleResult} {fault : Fault}
    (h : keepKeys results = .error fault) :
    ∃ r ∈ results, r.category.meaning.checkKey = .error fault := by
  induction results with
  | nil => cases h
  | cons r rs ih =>
    rcases bind_eq_error.1 h with hkey | ⟨key, -, h⟩
    · exact ⟨r, List.mem_cons_self, hkey⟩
    · rcases bind_eq_error.1 h with hrest | ⟨kept, -, hdone⟩
      · obtain ⟨r', hr', hfault⟩ := ih hrest
        exact ⟨r', List.mem_cons_of_mem r hr', hfault⟩
      · cases hdone

theorem strays_of_isolate {rule : RuleName} {categories : List Category}
    {outcome : Traced (List RuleResult)} {fault : Fault}
    (h : (isolate rule categories outcome).result = .error fault) : Strays outcome fault := by
  rw [isolate] at h
  split at h
  · cases h
  · rename_i given hgiven
    exact ⟨given, hgiven, exists_of_keepKeys_error h⟩

/-- Forgetting the notes, collecting is gathering. -/
theorem result_collect {α : Type} (step : α → Traced (List RuleResult)) (as : List α) :
    (collect step as).result = gather (fun a => (step a).result) as := by
  induction as with
  | nil => rfl
  | cons a as ih =>
    rw [collect, gather_cons, Traced.result_bind]
    simp only [Traced.result_bind, Traced.result_pure, ih]
    cases gather (fun a => (step a).result) as <;> rfl

/-- A fault of an application is the one with which a result of a rule refuses to be a key. -/
theorem exists_of_applyBinary_error {g : Grammar} {left right : Category} {fault : Fault}
    (h : (g.applyBinary left right).result = .error fault) :
    ∃ rule ∈ g.binary, Strays (rule.apply left right) fault := by
  rw [applyBinary, result_collect] at h
  obtain ⟨rule, hrule, hfault⟩ := exists_of_gather_error h
  exact ⟨rule, hrule, strays_of_isolate hfault⟩

theorem exists_of_applyUnary_error {g : Grammar} {c : Category} {fault : Fault}
    (h : (g.applyUnary c).result = .error fault) :
    ∃ rule ∈ g.unary, Strays (rule.apply c) fault := by
  rw [applyUnary, result_collect] at h
  obtain ⟨rule, hrule, hfault⟩ := exists_of_gather_error h
  exact ⟨rule, hrule, strays_of_isolate hfault⟩

/-- Whether the rules of a grammar give equal results on equal categories. -/
structure Coherent (g : Grammar) : Prop where
  binary : ∀ a a' b b' : Category, a.same a' = true → b.same b' = true → ∀ results,
    (g.applyBinary a b).result = .ok results →
      ∃ results', (g.applyBinary a' b').result = .ok results' ∧ RuleResult.Among results results'
  unary : ∀ a a' : Category, a.same a' = true → ∀ results,
    (g.applyUnary a).result = .ok results →
      ∃ results', (g.applyUnary a').result = .ok results' ∧ RuleResult.Among results results'

/-- What is collected is what some step gives. -/
theorem mem_collect {α : Type} {step : α → Traced (List RuleResult)} {as : List α}
    {results : List RuleResult} (h : (collect step as).result = .ok results) {r : RuleResult} :
    r ∈ results ↔ ∃ a ∈ as, ∃ given, (step a).result = .ok given ∧ r ∈ given := by
  rw [result_collect] at h
  constructor
  · exact mem_of_gather h
  · rintro ⟨a, ha, given, hgiven, hr⟩
    obtain ⟨given', hgiven', hsub⟩ := subset_of_gather h ha
    obtain rfl := Except.ok.inj (hgiven'.symm.trans hgiven)
    exact hsub hr

/-- A rule contributes the results that can be keys. -/
theorem mem_isolate {rule : RuleName} {cs : List Category} {outcome : Traced (List RuleResult)}
    {results : List RuleResult} (h : (isolate rule cs outcome).result = .ok results)
    {r : RuleResult} : r ∈ results ↔
      (∃ given, outcome.result = .ok given ∧ r ∈ given) ∧ r.category.hashable = true := by
  rw [isolate] at h
  split at h
  · rename_i fault hfault
    obtain rfl := Except.ok.inj h
    simp [hfault]
  · rename_i given hgiven
    simp [hgiven, keepKeys_eq h, List.mem_filter]

section

variable {g : Grammar} {left right c : Category} {results : List RuleResult} {r : RuleResult}

/-- Of rules that all contribute without a fault, the results that can be keys are collected. -/
theorem mem_collect_isolate {α : Type} {name : α → RuleName} {cs : List Category}
    {apply : α → Traced (List RuleResult)} {rules : List α}
    (h : (collect (fun rule => isolate (name rule) cs (apply rule)) rules).result = .ok results) :
    r ∈ results ↔ (∃ rule ∈ rules, ∃ given, (apply rule).result = .ok given ∧ r ∈ given) ∧
      r.category.hashable = true := by
  have hall := collect_ok_iff.1 ⟨results, h⟩
  rw [mem_collect h]
  constructor
  · rintro ⟨rule, hrule, given, hgiven, hr⟩
    obtain ⟨hr, hkey⟩ := (mem_isolate hgiven).1 hr
    exact ⟨⟨rule, hrule, hr⟩, hkey⟩
  · rintro ⟨⟨rule, hrule, hr⟩, hkey⟩
    obtain ⟨given, hgiven⟩ := hall rule hrule
    exact ⟨rule, hrule, given, hgiven, (mem_isolate hgiven).2 ⟨hr, hkey⟩⟩

theorem mem_applyBinary (h : (g.applyBinary left right).result = .ok results) : r ∈ results ↔
    (∃ rule ∈ g.binary, ∃ given, (rule.apply left right).result = .ok given ∧ r ∈ given) ∧
      r.category.hashable = true :=
  mem_collect_isolate h

theorem mem_applyUnary (h : (g.applyUnary c).result = .ok results) : r ∈ results ↔
    (∃ rule ∈ g.unary, ∃ given, (rule.apply c).result = .ok given ∧ r ∈ given) ∧
      r.category.hashable = true :=
  mem_collect_isolate h

end

/-- If two outcomes have equal results, what refuses to be a key in the one does so in the other. -/
theorem Regular.of_among {outcome outcome' : Traced (List RuleResult)} (h : Regular outcome)
    (hback : ∀ results', outcome'.result = .ok results' →
      ∃ results, outcome.result = .ok results ∧ RuleResult.Among results' results) :
    Regular outcome' := by
  intro results' hresults' r' hr'
  obtain ⟨results, hresults, hamong⟩ := hback results' hresults'
  obtain ⟨r, hr, -, hsame⟩ := hamong r' hr'
  simp only [Category.same, Bool.and_eq_true] at hsame
  exact (h results hresults r hr).of_same (Value.same_symm _ _ hsame.2)

/-- Of results that are among others, those that can be keys are among those that can. -/
theorem among_isolate {rule : RuleName} {cs cs' : List Category}
    {outcome outcome' : Traced (List RuleResult)}
    (h : ∀ results, outcome.result = .ok results →
      ∃ results', outcome'.result = .ok results' ∧ RuleResult.Among results results')
    {results results' : List RuleResult} (hresults : (isolate rule cs outcome).result = .ok results)
    (hresults' : (isolate rule cs' outcome').result = .ok results') :
    RuleResult.Among results results' := by
  intro r hr
  obtain ⟨⟨all, hall, hr⟩, hkey⟩ := (mem_isolate hresults).1 hr
  obtain ⟨all', hall', hamong⟩ := h all hall
  obtain ⟨r', hr', hrule, hsame⟩ := hamong r hr
  exact ⟨r', (mem_isolate hresults').2 ⟨⟨all', hall', hr'⟩, Category.hashable_of_same hsame hkey⟩,
    hrule, hsame⟩

theorem among_collect {α : Type} {step step' : α → Traced (List RuleResult)} {as : List α}
    (h : ∀ a ∈ as, ∀ results, (step a).result = .ok results →
      ∃ results', (step' a).result = .ok results' ∧ RuleResult.Among results results')
    {results : List RuleResult} (hresults : (collect step as).result = .ok results) :
    ∃ results', (collect step' as).result = .ok results' ∧
      RuleResult.Among results results' := by
  have hall := collect_ok_iff.1 ⟨results, hresults⟩
  obtain ⟨results', hresults'⟩ : ∃ results', (collect step' as).result = .ok results' := by
    refine collect_ok_iff.2 fun a ha => ?_
    obtain ⟨given, hgiven⟩ := hall a ha
    obtain ⟨given', hgiven', -⟩ := h a ha given hgiven
    exact ⟨given', hgiven'⟩
  refine ⟨results', hresults', fun r hr => ?_⟩
  obtain ⟨a, ha, given, hgiven, hr⟩ := (mem_collect hresults).1 hr
  obtain ⟨given', hgiven', hamong⟩ := h a ha given hgiven
  obtain ⟨r', hr', hsame⟩ := hamong r hr
  exact ⟨r', (mem_collect hresults').2 ⟨a, ha, given', hgiven', hr'⟩, hsame⟩

/-- What a rule contributes on equal categories is equal if the rule is coherent. -/
theorem exists_isolate {rule : RuleName} {cs cs' : List Category}
    {outcome outcome' : Traced (List RuleResult)}
    (h : ∀ results, outcome.result = .ok results →
      ∃ results', outcome'.result = .ok results' ∧ RuleResult.Among results results')
    (hback : ∀ results', outcome'.result = .ok results' →
      ∃ results, outcome.result = .ok results ∧ RuleResult.Among results' results)
    {results : List RuleResult} (hresults : (isolate rule cs outcome).result = .ok results) :
    ∃ results', (isolate rule cs' outcome').result = .ok results' ∧
      RuleResult.Among results results' := by
  have hregular := isolate_ok_iff.1 ⟨results, hresults⟩
  obtain ⟨results', hresults'⟩ : ∃ results', (isolate rule cs' outcome').result = .ok results' :=
    isolate_ok_iff.2 (hregular.of_among hback)
  exact ⟨results', hresults', among_isolate h hresults hresults'⟩

/-- A grammar gives equal results on equal categories if each of its rules does. -/
theorem coherent_of_rules {g : Grammar} (hbinary : ∀ rule ∈ g.binary, rule.Coherent)
    (hunary : ∀ rule ∈ g.unary, rule.Coherent) : g.Coherent where
  binary a a' b b' ha hb _ hresults :=
    among_collect (fun rule hrule _ => exists_isolate (hbinary rule hrule a a' b b' ha hb)
      (hbinary rule hrule a' a b' b (Category.same_symm ha) (Category.same_symm hb))) hresults
  unary a a' ha _ hresults :=
    among_collect (fun rule hrule _ => exists_isolate (hunary rule hrule a a' ha)
      (hunary rule hrule a' a (Category.same_symm ha))) hresults

/-- Whether the rules of a grammar are among some rules. -/
structure MadeOf (g : Grammar) (bs : List BinaryRule) (us : List UnaryRule) : Prop where
  binary : ∀ rule ∈ g.binary, rule ∈ bs
  unary : ∀ rule ∈ g.unary, rule ∈ us

variable {g : Grammar} {bs : List BinaryRule} {us : List UnaryRule}

theorem MadeOf.addBinary (h : g.MadeOf bs us) {rule : BinaryRule} (hrule : rule ∈ bs) :
    (g.addBinary rule).MadeOf bs us := by
  rw [Grammar.addBinary]
  split
  · exact h
  · refine ⟨fun r hr => ?_, h.unary⟩
    rcases List.mem_append.1 hr with hr | hr
    · exact h.binary r hr
    · exact List.mem_singleton.1 hr ▸ hrule

theorem MadeOf.addUnary (h : g.MadeOf bs us) {rule : UnaryRule} (hrule : rule ∈ us) :
    (g.addUnary rule).MadeOf bs us := by
  rw [Grammar.addUnary]
  split
  · exact h
  · refine ⟨h.binary, fun r hr => ?_⟩
    rcases List.mem_append.1 hr with hr | hr
    · exact h.unary r hr
    · exact List.mem_singleton.1 hr ▸ hrule

theorem madeOf_ofRules : (ofRules bs us).MadeOf bs us := by
  have hempty : empty.MadeOf bs us := ⟨by simp [empty], by simp [empty]⟩
  have hbinary : (bs.foldl Grammar.addBinary empty).MadeOf bs us :=
    List.foldlRecOn (motive := (MadeOf · bs us)) bs _ hempty
      fun _ h _ hrule => h.addBinary hrule
  exact List.foldlRecOn (motive := (MadeOf · bs us)) us _ hbinary
    fun _ h _ hrule => h.addUnary hrule

theorem coherent_ofRules (hbinary : ∀ rule ∈ bs, rule.Coherent)
    (hunary : ∀ rule ∈ us, rule.Coherent) : (ofRules bs us).Coherent :=
  coherent_of_rules (fun rule hrule => hbinary rule (madeOf_ofRules.binary rule hrule))
    fun rule hrule => hunary rule (madeOf_ofRules.unary rule hrule)

theorem binary_foldl_addBinary (bs : List BinaryRule) (g : Grammar) :
    (bs.foldl addBinary g).binary = bs.foldl (appendNew fun a b => b.same a) g.binary := by
  induction bs generalizing g with
  | nil => rfl
  | cons rule bs ih =>
    rw [List.foldl_cons, List.foldl_cons, ih, Grammar.addBinary, appendNew]
    split <;> rfl

theorem foldl_addUnary (us : List UnaryRule) (g : Grammar) :
    us.foldl addUnary g = ⟨g.binary, us.foldl (appendNew fun a b => b.same a) g.unary⟩ := by
  induction us generalizing g with
  | nil => rfl
  | cons rule us ih =>
    rw [List.foldl_cons, List.foldl_cons, ih, Grammar.addUnary, appendNew]
    split <;> rfl

theorem unary_foldl_addBinary (bs : List BinaryRule) (g : Grammar) :
    (bs.foldl addBinary g).unary = g.unary := by
  induction bs generalizing g with
  | nil => rfl
  | cons rule bs ih =>
    rw [List.foldl_cons, ih, Grammar.addBinary]
    split <;> rfl

/-- The rules of a grammar are the first occurrences of the rules that it was made with. -/
theorem ofRules_eq (bs : List BinaryRule) (us : List UnaryRule) : ofRules bs us =
    ⟨distinct (fun a b => b.same a) bs, distinct (fun a b => b.same a) us⟩ := by
  rw [ofRules, foldl_addUnary, binary_foldl_addBinary, unary_foldl_addBinary]
  rfl

/-- A grammar that was made with rules of which none absorbs skipped tokens gets both such rules
behind its own. -/
theorem withSkipping_ofRules (h : (ofRules bs us).hasSkipping = false) :
    (ofRules bs us).withSkipping =
      ⟨(ofRules bs us).binary ++ [.skipping .forward, .skipping .backward],
        (ofRules bs us).unary⟩ := by
  have hother : ∀ rule ∈ (ofRules bs us).binary, ∀ d,
      (BinaryRule.skipping d).same rule = false := by
    intro rule hrule d
    have hnot := List.any_eq_false.1 h rule hrule
    cases rule <;> simp_all [BinaryRule.same, BinaryRule.isSkipping]
  have hbinary := pairwise_distinct (fun a b : BinaryRule => b.same a) bs
  have hunary := pairwise_distinct (fun a b : UnaryRule => b.same a) us
  rw [withSkipping, ofRules_eq ((ofRules bs us).binary ++ _), distinct_of_pairwise,
    distinct_of_pairwise]
  · rw [ofRules_eq]
    exact hunary
  · rw [List.pairwise_append]
    refine ⟨by rw [ofRules_eq]; exact hbinary, by simp [BinaryRule.same], ?_⟩
    intro rule hrule skip hskip
    rcases List.mem_cons.1 hskip with rfl | hskip
    · exact hother rule hrule .forward
    · rw [List.mem_singleton.1 hskip]
      exact hother rule hrule .backward

/-- The rules that absorb skipped tokens may be added. -/
theorem coherent_withSkipping (hbinary : ∀ rule ∈ g.binary, rule.Coherent)
    (hunary : ∀ rule ∈ g.unary, rule.Coherent) : g.withSkipping.Coherent := by
  refine coherent_ofRules (fun rule hrule => ?_) hunary
  rcases List.mem_append.1 hrule with hrule | hrule
  · exact hbinary rule hrule
  · rcases List.mem_cons.1 hrule with rfl | hrule
    · exact BinaryRule.coherent_skipping .forward
    · rw [List.mem_singleton.1 hrule]
      exact BinaryRule.coherent_skipping .backward

end Grammar

end Categorial
