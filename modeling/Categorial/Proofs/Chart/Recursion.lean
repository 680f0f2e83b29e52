import Categorial.Proofs.Model.Functions
import Categorial.Proofs.Chart.Features
import Categorial.Proofs.Chart.Walk
import Categorial.Proofs.Collection.Gather

/-!
What walks over a cell find, as recursion over the tree finds it. A walk keeps the cells that it has
still to take in a list; what it finds from there on is what recursion finds in each of them, one
after the other. A node that hangs at several places of a tree is found at each of them. Main
statement: leaves, rules and features of a cell are those of the recursion, and the leaves of a cell
that is made of entries and of cells side by side cover its span.
-/

namespace Categorial

namespace Cell

variable {K : Type}

/-- Cells that are made one from another: of an entry, or of children that are made so. -/
inductive Built : Cell K → Prop where
  | ofEntry {entry : Entry} {span : Span} {score : K} {full : Bool} {mark : Nat} {c : Cell K}
      (h : ofEntry entry span score full mark = .ok c) : Built c
  | ofChildren {category : Category} {rule : RuleName} {children : List (Cell K)} {score : K}
      {full : Bool} {mark : Nat} {c : Cell K} (hchildren : ∀ child ∈ children, Built child)
      (h : ofChildren category rule children score full mark = .ok c) : Built c

/-- The lexical cells of a tree: those of each child, from left to right. -/
def leavesBelow : Cell K → List (Cell K)
  | lexical entry span score full mark => [lexical entry span score full mark]
  | derived _ _ children _ _ _ _ => children.flatMap leavesBelow

/-- The rules of a tree: the one of its root, and those of each child, from left to right. -/
def rulesBelow : Cell K → List RuleName
  | lexical .. => []
  | derived _ rule children _ _ _ _ => rule :: children.flatMap rulesBelow

/-- A walk with some cells still to take will meet the leaves below each of them. -/
theorem leavesFrom_eq_flatMap (cs : List (Cell K)) : leavesFrom cs = cs.flatMap leavesBelow := by
  induction cs using leavesFrom.induct with
  | case1 => rw [leavesFrom, List.flatMap_nil]
  | case2 e s score full mark rest ih =>
    rw [leavesFrom, ih, List.flatMap_cons, leavesBelow, List.singleton_append]
  | case3 category rule children s score full mark rest ih =>
    rw [leavesFrom, ih, List.flatMap_append, List.flatMap_cons, leavesBelow]

/-- A walk with some cells still to take will meet the rules below each of them. -/
theorem rulesFrom_eq_flatMap (cs : List (Cell K)) : rulesFrom cs = cs.flatMap rulesBelow := by
  induction cs using rulesFrom.induct with
  | case1 => rw [rulesFrom, List.flatMap_nil]
  | case2 e s score full mark rest ih =>
    rw [rulesFrom, ih, List.flatMap_cons, rulesBelow, List.nil_append]
  | case3 category rule children s score full mark rest ih =>
    rw [rulesFrom, ih, List.flatMap_append, List.flatMap_cons, rulesBelow, List.cons_append]

theorem leaves_eq (c : Cell K) : c.leaves = c.leavesBelow := by
  rw [leaves, leavesFrom_eq_flatMap, List.flatMap_singleton]

theorem rules_eq (c : Cell K) : c.rules = c.rulesBelow := by
  rw [rules, rulesFrom_eq_flatMap, List.flatMap_singleton]

/-! The spans of the leaves. -/

/-- Whether the leaves of a cell cover its span, side by side. -/
def Tiled (c : Cell K) : Prop := Tiles c.span.start (c.leavesBelow.map Cell.span) c.span.stop

/-- The leaves of cells that are joined to a span cover what of it lies after the first one. -/
theorem tiles_of_joinSpans {first s : Span} {cs : List (Cell K)} (hcs : ∀ c ∈ cs, c.Tiled)
    (h : joinSpans first cs = .ok s) :
    s.start = first.start ∧ Tiles first.stop ((cs.flatMap leavesBelow).map Cell.span) s.stop := by
  induction cs generalizing first s with
  | nil =>
    obtain rfl := Except.ok.inj h
    exact ⟨rfl, rfl⟩
  | cons c cs ih =>
    obtain ⟨hc, hcs⟩ := List.forall_mem_cons.1 hcs
    rw [joinSpans] at h
    split at h
    · rename_i hjoin
      obtain ⟨joined, hjoined, rfl⟩ := map_eq_ok.1 h
      rw [hjoin, List.flatMap_cons, List.map_append]
      exact ⟨rfl, Tiles.append hc (ih hcs hjoined).2⟩
    · cases h

theorem tiles_of_spanOf {s : Span} {cs : List (Cell K)} (hcs : ∀ c ∈ cs, c.Tiled)
    (h : spanOf cs = .ok s) : Tiles s.start ((cs.flatMap leavesBelow).map Cell.span) s.stop := by
  cases cs with
  | nil => cases h
  | cons c cs =>
    obtain ⟨hc, hcs⟩ := List.forall_mem_cons.1 hcs
    obtain ⟨hstart, hrest⟩ := tiles_of_joinSpans hcs h
    rw [hstart, List.flatMap_cons, List.map_append]
    exact Tiles.append hc hrest

theorem Built.tiled {c : Cell K} (h : c.Built) : c.Tiled := by
  induction h with
  | ofEntry h =>
    rw [Cell.ofEntry] at h
    split at h
    · rename_i hlt
      obtain rfl := Except.ok.inj h
      rw [Tiled, leavesBelow]
      exact ⟨rfl, hlt, rfl⟩
    · cases h
  | ofChildren _ h ih =>
    obtain ⟨s, hs, h⟩ := bind_eq_ok.1 h
    split at h
    · obtain rfl := Except.ok.inj h
      rw [Tiled, leavesBelow]
      exact tiles_of_spanOf ih hs
    · cases h

end Cell

namespace Model

open SparseVector

/-- The features of a tree: those of its entry, or those of its rule and of each child. -/
noncomputable def treeFeatures (m : Model Rat) : Cell Rat → Except Fault (FeatureKey →₀ Rat)
  | .lexical entry _ _ _ _ => .ok (m.entryFeatures entry).values
  | .derived _ rule children _ _ _ _ => do
    let own ← m.ruleFeatures rule
    let below ← children.mapM m.treeFeatures
    return own.values + below.sum

variable {m : Model Rat} {rule : RuleName}

/-- Whether a feature set has features for an application does not depend on the rule. -/
theorem exists_compute {f : RuleFeatures Rat} {v : SparseVector Rat} (h : f.compute rule = .ok v)
    (rule' : RuleName) : ∃ v', f.compute rule' = .ok v' := by
  cases f with
  | usage name scale =>
    obtain ⟨x, rfl, -⟩ := bind_eq_ok.1 h
    refine ⟨ofPairs [([name, rule'.text], x)], ?_⟩
    rw [RuleFeatures.compute]
    exact ofScores_rat _
  | abstract => cases h

theorem exists_ruleFeatures {v : SparseVector Rat} (h : m.ruleFeatures rule = .ok v)
    (rule' : RuleName) : ∃ v', m.ruleFeatures rule' = .ok v' := by
  have hparts : ∀ (fs : List (RuleFeatures Rat)) us, (fs.map (·.compute rule)).mapM id = .ok us →
      ∃ us', (fs.map (·.compute rule')).mapM id = .ok us' := by
    intro fs
    induction fs with
    | nil => exact fun _ _ => ⟨[], rfl⟩
    | cons f fs ih =>
      intro us hus
      obtain ⟨u, rest, hu, hrest, -⟩ := mapM_cons_eq_ok.1 hus
      obtain ⟨u', hu'⟩ := exists_compute hu rule'
      obtain ⟨us', hus'⟩ := ih rest hrest
      exact ⟨_, mapM_cons_eq_ok.2 ⟨u', us', hu', hus', rfl⟩⟩
  obtain ⟨us, hus, -⟩ := map_eq_ok.1 h
  obtain ⟨us', hus'⟩ := hparts m.rules us hus
  exact ⟨_, map_eq_ok.2 ⟨us', hus', rfl⟩⟩

/-- Where one rule has features, so has every tree. -/
theorem exists_treeFeatures {v : SparseVector Rat} (h : m.ruleFeatures rule = .ok v)
    (c : Cell Rat) : ∃ f, m.treeFeatures c = .ok f := by
  induction c using treeFeatures.induct with
  | case1 e s score full mark => exact ⟨_, by rw [treeFeatures]⟩
  | case2 category rule' children s score full mark ih =>
    obtain ⟨own, hown⟩ := exists_ruleFeatures h rule'
    obtain ⟨below, hbelow⟩ := exists_mapM ih
    refine ⟨own.values + below.sum, ?_⟩
    rw [treeFeatures, hown, hbelow]
    rfl

/-- A walk with some cells still to take will add up the features of their trees. If the rule of one
of them has no features, the walk ends there, and so does the recursion; otherwise every rule has
features, and it does not matter that the walk takes the last child first. -/
theorem featuresFrom_eq_sum (m : Model Rat) (cs : List (Cell Rat)) (acc : SparseVector Rat) :
    (m.featuresFrom cs acc).map values =
      (cs.mapM m.treeFeatures).map fun parts => acc.values + parts.sum := by
  induction cs, acc using featuresFrom.induct m with
  | case1 acc =>
    rw [featuresFrom, List.mapM_nil]
    exact congrArg Except.ok (add_zero acc.values).symm
  | case2 e s score full mark rest acc ih =>
    rw [featuresFrom, ih, List.mapM_cons, treeFeatures]
    cases rest.mapM m.treeFeatures with
    | error fault => rfl
    | ok parts =>
      have hsum : (acc.addTimes 1 (m.entryFeatures e)).values + parts.sum =
          acc.values + ((m.entryFeatures e).values :: parts).sum := by
        rw [values_addTimes_one, List.sum_cons, add_assoc]
      exact congrArg Except.ok hsum
  | case3 category rule children s score full mark rest acc fault hfault =>
    rw [featuresFrom, hfault, List.mapM_cons, treeFeatures, hfault]
    rfl
  | case4 category rule children s score full mark rest acc own hown ih =>
    obtain ⟨below, hbelow⟩ := exists_mapM fun c (_ : c ∈ children) => exists_treeFeatures hown c
    obtain ⟨others, hothers⟩ := exists_mapM fun c (_ : c ∈ rest) => exists_treeFeatures hown c
    obtain ⟨taken, htaken, hperm⟩ := exists_mapM_of_perm (List.reverse_perm children) hbelow
    have htree : m.treeFeatures (.derived category rule children s score full mark) =
        .ok (own.values + below.sum) := by
      rw [treeFeatures, hown, hbelow]
      rfl
    have hsum : (acc.addTimes 1 own).values + (taken ++ others).sum =
        acc.values + ((own.values + below.sum) :: others).sum := by
      rw [values_addTimes_one, List.sum_append, hperm.sum_eq, List.sum_cons, add_assoc, add_assoc]
    rw [List.unattach_reverse, List.unattach_attach,
      mapM_append_eq_ok.2 ⟨_, _, htaken, hothers, rfl⟩] at ih
    rw [featuresFrom, hown, mapM_cons_eq_ok.2 ⟨_, _, htree, hothers, rfl⟩]
    exact ih.trans (congrArg Except.ok hsum)

/-- The features of a cell are those of its tree. -/
theorem cellFeatures_eq (m : Model Rat) (c : Cell Rat) :
    (m.cellFeatures c).map values = m.treeFeatures c := by
  rw [cellFeatures, featuresFrom_eq_sum, values_empty, List.mapM_cons, List.mapM_nil]
  cases m.treeFeatures c with
  | error fault => rfl
  | ok f =>
    have hsum : (0 : FeatureKey →₀ Rat) + [f].sum = f := by rw [List.sum_singleton, zero_add]
    exact congrArg Except.ok hsum

end Model

/-- What walks over a cell find is what recursion over its tree finds, also where a node hangs at
several places of the tree. The leaves of a cell that is made one from another cover its span. -/
theorem walks_recursive :
    (∀ {K : Type} (c : Cell K), c.leaves = c.leavesBelow ∧ c.rules = c.rulesBelow ∧
      (c.Built → Tiles c.span.start (c.leaves.map Cell.span) c.span.stop)) ∧
    ∀ (m : Model Rat) (c : Cell Rat),
      (m.cellFeatures c).map SparseVector.values = m.treeFeatures c := by
  refine ⟨fun c => ⟨c.leaves_eq, c.rules_eq, fun h => ?_⟩, Model.cellFeatures_eq⟩
  rw [c.leaves_eq]
  exact h.tiled

/-- The cell of a token at a span. -/
def tokenCell (token : String) (start stop : Int) : Cell Rat :=
  .lexical ⟨[token], .empty, .fixed, []⟩ ⟨start, stop⟩ 0 false 0

theorem built_tokenCell (token : String) {start stop : Int} (h : start < stop) :
    (tokenCell token start stop).Built := by
  have hcell : Cell.ofEntry ⟨[token], .empty, .fixed, []⟩ ⟨start, stop⟩ 0 false 0 =
      .ok (tokenCell token start stop) := if_pos h
  exact .ofEntry hcell

/-- A cell with three children, the second of which has a child of its own. -/
def threefold : Cell Rat :=
  .derived .empty ⟨"join", .forward⟩
    [tokenCell "a" 0 1,
      .derived .empty ⟨"shift", .backward⟩ [tokenCell "b" 1 3] ⟨1, 3⟩ 0 false 0,
      tokenCell "c" 3 4] ⟨0, 4⟩ 0 true 0

theorem built_threefold : threefold.Built := by
  have ha : (tokenCell "a" 0 1).Built := built_tokenCell "a" (by decide)
  have hb : (tokenCell "b" 1 3).Built := built_tokenCell "b" (by decide)
  have hc : (tokenCell "c" 3 4).Built := built_tokenCell "c" (by decide)
  have hshift : Cell.Built
      (.derived .empty ⟨"shift", .backward⟩ [tokenCell "b" 1 3] ⟨1, 3⟩ 0 false 0 : Cell Rat) :=
    .ofChildren (List.forall_mem_singleton.2 hb) rfl
  have hcell : Cell.ofChildren .empty ⟨"join", .forward⟩ threefold.children 0 true 0 =
      .ok threefold := rfl
  refine .ofChildren ?_ hcell
  simp only [threefold, Cell.children, List.forall_mem_cons]
  exact ⟨ha, hshift, hc, List.forall_mem_nil _⟩

theorem threefold_walks : threefold.Built ∧
    threefold.leaves = [tokenCell "a" 0 1, tokenCell "b" 1 3, tokenCell "c" 3 4] ∧
    threefold.rules = [⟨"join", .forward⟩, ⟨"shift", .backward⟩] ∧
    Tiles 0 (threefold.leaves.map Cell.span) 4 := by
  obtain ⟨hleaves, hrules, htiles⟩ := walks_recursive.1 threefold
  refine ⟨built_threefold, ?_, ?_, htiles built_threefold⟩
  · rw [hleaves]
    simp [threefold, tokenCell, Cell.leavesBelow]
  · rw [hrules]
    simp [threefold, tokenCell, Cell.rulesBelow]

end Categorial
