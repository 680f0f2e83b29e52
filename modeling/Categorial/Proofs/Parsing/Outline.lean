import Categorial.Proofs.Parsing.Derivations

/-!
Outlines of cells: what is left of a derivation without its scores and without the origins of its
entries. Main statement: derivations of a sentence that have one outline are one node, so a span
retains just one cell of an outline.
-/

namespace Categorial

/-- A derivation with the tokens and categories of its entries, and the rules and categories of its
other nodes. -/
inductive Outline where
  | leaf (tokens : List String) (category : Category) (span : Span)
  | node (rule : RuleName) (category : Category) (span : Span) (children : List Outline)

/-- The category of an outline. -/
def Outline.category : Outline → Category
  | leaf _ category _ => category
  | node _ category _ _ => category

namespace Cell

variable {K : Type}

mutual

/-- The outline of a cell. -/
def outline : Cell K → Outline
  | lexical entry span .. => .leaf entry.tokens entry.category span
  | derived category rule children span .. => .node rule category span (outlines children)

/-- The outlines of some cells. -/
def outlines : List (Cell K) → List Outline
  | [] => []
  | c :: cs => outline c :: outlines cs

end

@[simp] theorem category_outline (c : Cell K) : c.outline.category = c.category := by
  cases c <;> rfl

theorem outlines_eq_map (cs : List (Cell K)) : outlines cs = cs.map outline := by
  induction cs with
  | nil => rfl
  | cons c cs ih => rw [outlines, List.map_cons, ih]

end Cell

namespace Sentence

variable {K : Type} {t : Sentence K}

section

variable (e : Entry) (res : RuleResult) (l r : Cell K) (s : Span) (score : K)

@[simp] theorem outline_leaf : (t.leaf e s score).outline = .leaf e.tokens e.category s := rfl

@[simp] theorem outline_node_pair : (t.node [l, r] res s score).outline =
    .node res.rule res.category s [l.outline, r.outline] := rfl

@[simp] theorem outline_node_single : (t.node [l] res s score).outline =
    .node res.rule res.category s [l.outline] := rfl

end

variable [Scalar K] {c d : Cell K}

/-- Derivations with one outline are one node. -/
theorem Derives.sameNode_of_outline (hc : t.Derives c) (hd : t.Derives d)
    (h : c.outline = d.outline) : c.sameNode d = true := by
  induction hc generalizing d with
  | entry =>
    cases hd with
    | entry =>
      simp only [outline_leaf, Outline.leaf.injEq] at h
      obtain ⟨htokens, hcategory, rfl⟩ := h
      simp [leaf, Cell.sameNode, Entry.same, htokens, hcategory, Category.same_refl]
    | pair => simp at h
    | shift => simp at h
  | pair _ _ _ _ _ _ ihl ihr =>
    cases hd with
    | entry => simp at h
    | pair hl hr =>
      simp only [outline_node_pair, Outline.node.injEq, List.cons.injEq, and_true] at h
      obtain ⟨hrule, hcategory, -, hleft, hright⟩ := h
      simp [node, Cell.sameNode, Cell.sameNodes, hrule, hcategory, Category.same_refl,
        ihl hl hleft, ihr hr hright]
    | shift => simp at h
  | shift _ _ _ _ _ ih =>
    cases hd with
    | entry => simp at h
    | pair => simp at h
    | shift hchild =>
      simp only [outline_node_single, Outline.node.injEq, List.cons.injEq, and_true] at h
      obtain ⟨hrule, hcategory, -, houtline⟩ := h
      simp [node, Cell.sameNode, Cell.sameNodes, hrule, hcategory, Category.same_refl,
        ih hchild houtline]

/-- Cells that a span retains and that have one outline are one cell. -/
theorem eq_of_outline {select : List (Offer K) → List (Cell K)} (hselect : Selects select)
    {s : Span} {cs : List (Cell K)} (hcs : t.cellsAt select s = .ok cs) (hc : c ∈ cs) (hd : d ∈ cs)
    (h : c.outline = d.outline) : c = d :=
  eq_of_sameNode hselect hcs hcs hc hd
    ((derives_of_mem_cellsAt hselect hcs hc).sameNode_of_outline
      (derives_of_mem_cellsAt hselect hcs hd) h)

/-- A span retains no cell twice. -/
theorem nodup_cellsAt {select : List (Offer K) → List (Cell K)} (hselect : Selects select)
    {s : Span} {cs : List (Cell K)} (hcs : t.cellsAt select s = .ok cs) : cs.Nodup := by
  obtain ⟨os, -, rfl⟩ := map_eq_ok.1 hcs
  refine (hselect.apart os).imp fun {c d} hapart => ?_
  rintro rfl
  rw [Cell.sameStep_refl] at hapart
  cases hapart

end Sentence

end Categorial
