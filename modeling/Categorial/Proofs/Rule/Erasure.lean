import Categorial.Proofs.Rule.Schema

/-!
Rules on categories without meanings. Nothing can stop a rule there, so it gives what its schema
yields, without a meaning. A distribution is left out: it asks for meanings. Main statement: what a
grammar gives for some categories, it also gives for them without their meanings; there are no
others of the same rule, but for results of shifting rules whose types have one name.
-/

namespace Categorial

/-- The category without its meaning. -/
def Category.erased (c : Category) : Category := ⟨c.type, .none⟩

@[simp] theorem Category.erased_type (c : Category) : c.erased.type = c.type := rfl

theorem Category.erased_same {a b : Category} (h : a.same b = true) :
    a.erased.same b.erased = true := by
  rw [same, Bool.and_eq_true] at h ⊢
  exact ⟨h.1, Value.same_refl _⟩

namespace BinaryRule

variable {rule rule' : BinaryRule} {t u s s' : Typing}

/-- Whether a rule follows a schema and needs no meanings. -/
structure Filters (rule : BinaryRule) : Prop where
  schematic : rule.Schematic
  no_distribution : ∀ C, rule ≠ .distribution C

/-- On categories without meanings a rule gives what its schema yields. -/
theorem Yields.apply_erased (h : rule.Yields t u s) (hfilters : rule.Filters) :
    (rule.apply ⟨t, .none⟩ ⟨u, .none⟩).result = .ok [⟨rule.name, s, .none⟩] := by
  cases h with
  | applyForward hsub => simp [apply, hsub, combine, single, name, Value.isNone, Except.bind]
  | applyBackward hsub => simp [apply, hsub, combine, single, name, Value.isNone, Except.bind]
  | composeForward hsub =>
    have hsame := SyntaxType.same_iff.2 (Typing.same_some_iff.1 hsub)
    simp [apply, hsame, combine, single, name, Value.isNone, Except.bind]
  | composeBackward hsub =>
    have hsame := SyntaxType.same_iff.2 (Typing.same_some_iff.1 hsub)
    simp [apply, hsame, combine, single, name, Value.isNone, Except.bind]
  | skipForward hempty => simp [apply, Category.isEmpty, hempty, name]
  | skipBackward hempty => simp [apply, Category.isEmpty, hempty, name]
  | initiate hconj hitem hpartial hempty =>
    simp [apply, hconj, hitem, hpartial, Category.isEmpty, hempty, coordinate, name, Value.isNone,
      Typing.coordination, Except.bind]
  | complete hcoordination =>
    simp [apply, hcoordination, coordinate, name, Value.isNone, Except.bind]
  | distribute => exact absurd rfl (hfilters.no_distribution _)

/-- Of schemas of one name, one type is yielded. -/
theorem Yields.eq_of_name (h : rule.Yields t u s) (h' : rule'.Yields t u s')
    (hname : rule.name = rule'.name) : s = s' := by
  cases h <;> cases h' <;> first | rfl | simp [name] at hname

end BinaryRule

namespace Grammar

/-- Whether the rules of a grammar follow schemas and need no meanings, or shift types. -/
structure Filters (g : Grammar) : Prop where
  binary : ∀ rule ∈ g.binary, rule.Filters
  unary : ∀ rule ∈ g.unary, ∃ I label source target function,
    rule = .shift I label source target function

/-- Whether shifting rules of one label and one source, whose targets have one name, have one
target. -/
def TargetsAlike (g : Grammar) : Prop :=
  ∀ I label source target function I' source' target' function',
    .shift I label source target function ∈ g.unary →
      .shift I' label source' target' function' ∈ g.unary →
        source.same source' = true → target.same target' = true → target = target'

variable {g : Grammar} {left right c : Category} {results results' : List RuleResult}
  {res res' : RuleResult}

/-- Rules that follow schemas always give their results on categories without meanings. -/
theorem Filters.applyBinary_ok (h : g.Filters) (left right : Category) :
    ∃ results, (g.applyBinary left.erased right.erased).result = .ok results :=
  applyBinary_ok_iff.2 fun rule hrule =>
    BinaryRule.regular_of_schematic (h.binary rule hrule).schematic rfl rfl

theorem Filters.applyUnary_ok (h : g.Filters) (c : Category) :
    ∃ results, (g.applyUnary c.erased).result = .ok results := by
  refine applyUnary_ok_iff.2 fun rule hrule => ?_
  obtain ⟨I, label, source, target, function, rfl⟩ := h.unary rule hrule
  exact UnaryRule.regular_shift rfl

/-- A result on two categories is the only one of a rule whose schema yields its type. -/
theorem Filters.exists_yields (h : g.Filters)
    (hresults : (g.applyBinary left right).result = .ok results) (hres : res ∈ results) :
    ∃ rule ∈ g.binary, ∃ s v, rule.Yields left.type right.type s ∧
      (rule.apply left right).result = .ok [⟨rule.name, s, v⟩] ∧ res = ⟨rule.name, s, v⟩ := by
  obtain ⟨⟨rule, hrule, given, hgiven, hmem⟩, -⟩ := (mem_applyBinary hresults).1 hres
  rcases BinaryRule.follows_of_apply (h.binary rule hrule).schematic hgiven with
    rfl | ⟨s, v, hyields, rfl⟩
  · cases hmem
  · exact ⟨rule, hrule, s, v, hyields, hgiven, List.mem_singleton.1 hmem⟩

/-- What a grammar gives for two categories it gives for them without their meanings. -/
theorem Filters.exists_binary (h : g.Filters)
    (hresults : (g.applyBinary left right).result = .ok results) (hres : res ∈ results)
    (hresults' : (g.applyBinary left.erased right.erased).result = .ok results') :
    ⟨res.rule, res.category.erased⟩ ∈ results' := by
  obtain ⟨rule, hrule, s, v, hyields, -, rfl⟩ := h.exists_yields hresults hres
  have happly := hyields.apply_erased (h.binary rule hrule)
  exact (mem_applyBinary hresults').2 ⟨⟨rule, hrule, _, happly, List.mem_singleton.2 rfl⟩, rfl⟩

/-- Of each rule there is one result for two categories without meanings. -/
theorem Filters.eq_of_binary (h : g.Filters)
    (hresults : (g.applyBinary left.erased right.erased).result = .ok results)
    (hres : res ∈ results) (hres' : res' ∈ results) (hname : res.rule = res'.rule) :
    res = res' := by
  obtain ⟨rule, hrule, s, v, hyields, happly, rfl⟩ := h.exists_yields hresults hres
  obtain ⟨rule', hrule', s', v', hyields', happly', rfl⟩ := h.exists_yields hresults hres'
  have hgiven := happly.symm.trans (hyields.apply_erased (h.binary rule hrule))
  have hgiven' := happly'.symm.trans (hyields'.apply_erased (h.binary rule' hrule'))
  rw [List.singleton_inj.1 (Except.ok.inj hgiven), List.singleton_inj.1 (Except.ok.inj hgiven'),
    hyields.eq_of_name hyields' hname]
  exact congrArg (RuleResult.mk · _) hname

/-- A result on one category is the only one of a shifting rule for it. -/
theorem Filters.exists_shift (h : g.Filters)
    (hresults : (g.applyUnary c).result = .ok results) (hres : res ∈ results) :
    ∃ I label source target function v, .shift I label source target function ∈ g.unary ∧
      c.type.same source = true ∧
        ((UnaryRule.shift I label source target function).apply c).result =
          .ok [⟨⟨label, .forward⟩, target, v⟩] ∧ res = ⟨⟨label, .forward⟩, target, v⟩ := by
  obtain ⟨⟨rule, hrule, given, hgiven, hmem⟩, -⟩ := (mem_applyUnary hresults).1 hres
  obtain ⟨I, label, source, target, function, rfl⟩ := h.unary rule hrule
  rcases UnaryRule.follows_of_shift hgiven with rfl | ⟨hsource, v, rfl, -⟩
  · cases hmem
  · exact ⟨I, label, source, target, function, v, hrule, hsource, hgiven, List.mem_singleton.1 hmem⟩

theorem apply_shift_erased (I : Interpretation) (label : String) {source : Typing}
    (target : Typing) (function : Value) (hsource : c.type.same source = true) :
    ((UnaryRule.shift I label source target function).apply c.erased).result =
      .ok [⟨⟨label, .forward⟩, target, .none⟩] := by
  simp [UnaryRule.apply, hsource, Category.erased, Value.isNone, UnaryRule.name]

/-- What a grammar gives for a category it gives for it without its meaning. -/
theorem Filters.exists_unary (h : g.Filters)
    (hresults : (g.applyUnary c).result = .ok results) (hres : res ∈ results)
    (hresults' : (g.applyUnary c.erased).result = .ok results') :
    ⟨res.rule, res.category.erased⟩ ∈ results' := by
  obtain ⟨I, label, source, target, function, v, hrule, hsource, -, rfl⟩ :=
    h.exists_shift hresults hres
  have happly := apply_shift_erased I label target function hsource
  exact (mem_applyUnary hresults').2 ⟨⟨_, hrule, _, happly, List.mem_singleton.2 rfl⟩, rfl⟩

/-- Of each label and each type there is one result for a category without meaning, if targets are
alike. -/
theorem Filters.eq_of_unary (h : g.Filters) (halike : g.TargetsAlike)
    (hresults : (g.applyUnary c.erased).result = .ok results) (hres : res ∈ results)
    (hres' : res' ∈ results) (hname : res.rule = res'.rule)
    (hsame : res.category.type.same res'.category.type = true) : res = res' := by
  obtain ⟨I, label, source, target, function, v, hrule, hsource, happly, rfl⟩ :=
    h.exists_shift hresults hres
  obtain ⟨I', label', source', target', function', v', hrule', hsource', happly', rfl⟩ :=
    h.exists_shift hresults hres'
  obtain rfl : label = label' := congrArg RuleName.label hname
  have hgiven := happly.symm.trans (apply_shift_erased I label target function hsource)
  have hgiven' := happly'.symm.trans (apply_shift_erased I' label target' function' hsource')
  have hsources := Typing.same_trans (Typing.same_symm hsource) hsource'
  obtain rfl : target = target' := halike I label source target function I' source' target'
    function' hrule hrule' hsources hsame
  rw [List.singleton_inj.1 (Except.ok.inj hgiven), List.singleton_inj.1 (Except.ok.inj hgiven')]

end Grammar

end Categorial
