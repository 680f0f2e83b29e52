import Categorial.Chart.Cell

/-!
Walks over the cells of a derivation, and the spans that its leaves cover. Main statements: what a
walk meets below a cell is what it meets below the children, one after the other, and it meets all
cells inside and no others.
-/

namespace Categorial

/-- Spans that lie side by side and cover all positions from `start` up to `stop`. -/
def Tiles : Int → List Span → Int → Prop
  | start, [], stop => start = stop
  | start, s :: ss, stop => s.start = start ∧ s.start < s.stop ∧ Tiles s.stop ss stop

theorem Tiles.append {start mid stop : Int} {ss ss' : List Span} (h : Tiles start ss mid)
    (h' : Tiles mid ss' stop) : Tiles start (ss ++ ss') stop := by
  induction ss generalizing start with
  | nil =>
    rw [Tiles] at h
    rw [List.nil_append, h]
    exact h'
  | cons s ss ih =>
    obtain ⟨hstart, hlt, hrest⟩ := h
    exact ⟨hstart, hlt, ih hrest⟩

namespace Cell

variable {K : Type}

/-- The cells of a derivation: the last one, and those of its children. -/
inductive Inside : Cell K → Cell K → Prop where
  | self (c : Cell K) : Inside c c
  | child {a b c : Cell K} (hb : b ∈ c.children) (h : Inside a b) : Inside a c

theorem leavesFrom_append (as bs : List (Cell K)) :
    leavesFrom (as ++ bs) = leavesFrom as ++ leavesFrom bs := by
  induction as using leavesFrom.induct with
  | case1 => simp [leavesFrom]
  | case2 e s score full mark rest ih => simp [leavesFrom, ih]
  | case3 category rule children s score full mark rest ih =>
    rw [List.append_assoc] at ih
    simp [leavesFrom, ih]

theorem rulesFrom_append (as bs : List (Cell K)) :
    rulesFrom (as ++ bs) = rulesFrom as ++ rulesFrom bs := by
  induction as using rulesFrom.induct with
  | case1 => simp [rulesFrom]
  | case2 e s score full mark rest ih => simp [rulesFrom, ih]
  | case3 category rule children s score full mark rest ih =>
    rw [List.append_assoc] at ih
    simp [rulesFrom, ih]

/-- A walk that takes a cell goes on with its children: the cells inside are those. -/
theorem inside_cons_iff {a b : Cell K} {cs : List (Cell K)} : (∃ c ∈ a :: cs, Inside b c) ↔
    b = a ∨ ∃ c ∈ a.children ++ cs, Inside b c := by
  constructor
  · rintro ⟨c, hc, h⟩
    rcases List.mem_cons.1 hc with rfl | hc
    · cases h with
      | self => exact Or.inl rfl
      | child ha h => exact Or.inr ⟨_, List.mem_append_left cs ha, h⟩
    · exact Or.inr ⟨c, List.mem_append_right a.children hc, h⟩
  · rintro (rfl | ⟨c, hc, h⟩)
    · exact ⟨b, List.mem_cons_self, .self b⟩
    · rcases List.mem_append.1 hc with hc | hc
      · exact ⟨a, List.mem_cons_self, .child hc h⟩
      · exact ⟨c, List.mem_cons_of_mem a hc, h⟩

theorem mem_entriesFrom {e : Entry} (cs : List (Cell K)) : e ∈ (leavesFrom cs).filterMap entry? ↔
    ∃ b, (∃ c ∈ cs, Inside b c) ∧ b.entry? = some e := by
  induction cs using leavesFrom.induct with
  | case1 => simp [leavesFrom]
  | case2 e' s score full mark rest ih =>
    simp only [inside_cons_iff, or_and_right, exists_or, exists_eq_left]
    rw [leavesFrom, List.filterMap_cons, entry?, List.mem_cons, ih, Option.some.injEq, children,
      List.nil_append, eq_comm]
  | case3 category rule cs s score full mark rest ih =>
    simp only [inside_cons_iff, or_and_right, exists_or, exists_eq_left]
    rw [leavesFrom, ih]
    simp [children, entry?]

theorem mem_rulesFrom {r : RuleName} (cs : List (Cell K)) : r ∈ rulesFrom cs ↔
    ∃ b, (∃ c ∈ cs, Inside b c) ∧ b.entry? = none ∧ b.rule = r := by
  induction cs using rulesFrom.induct with
  | case1 => simp [rulesFrom]
  | case2 e s score full mark rest ih =>
    simp only [inside_cons_iff, or_and_right, exists_or, exists_eq_left]
    rw [rulesFrom, ih]
    simp [children, entry?]
  | case3 category rule cs s score full mark rest ih =>
    simp only [inside_cons_iff, or_and_right, exists_or, exists_eq_left]
    rw [rulesFrom, List.mem_cons, ih, Cell.rule, children]
    simp [eq_comm, entry?]

/-- The entries of a cell are those of the lexical cells inside. -/
theorem mem_entries_iff {c : Cell K} {e : Entry} :
    e ∈ c.entries ↔ ∃ b, Inside b c ∧ b.entry? = some e := by
  rw [entries, leaves, mem_entriesFrom]
  simp

/-- The rules of a cell are those of the other cells inside. -/
theorem mem_rules_iff {c : Cell K} {r : RuleName} :
    r ∈ c.rules ↔ ∃ b, Inside b c ∧ b.entry? = none ∧ b.rule = r := by
  rw [rules, mem_rulesFrom]
  simp

variable (category : Category) (rule : RuleName) (c l r : Cell K) (s : Span) (score : K)
  (full : Bool) (mark : Nat)

@[simp] theorem leaves_lexical (e : Entry) :
    (lexical e s score full mark).leaves = [lexical e s score full mark] := by
  simp [leaves, leavesFrom]

@[simp] theorem leaves_pair : (derived category rule [l, r] s score full mark).leaves =
    l.leaves ++ r.leaves := by
  have happend := leavesFrom_append [l] [r]
  simpa [leaves, leavesFrom] using happend

@[simp] theorem leaves_single :
    (derived category rule [c] s score full mark).leaves = c.leaves := by
  simp [leaves, leavesFrom]

@[simp] theorem entries_lexical (e : Entry) : (lexical e s score full mark).entries = [e] := by
  simp [entries, entry?]

@[simp] theorem entries_pair : (derived category rule [l, r] s score full mark).entries =
    l.entries ++ r.entries := by
  simp [entries]

@[simp] theorem entries_single :
    (derived category rule [c] s score full mark).entries = c.entries := by
  simp [entries]

@[simp] theorem rules_lexical (e : Entry) : (lexical e s score full mark).rules = [] := by
  simp [rules, rulesFrom]

@[simp] theorem rules_pair : (derived category rule [l, r] s score full mark).rules =
    rule :: (l.rules ++ r.rules) := by
  have happend := rulesFrom_append [l] [r]
  simpa [rules, rulesFrom] using happend

@[simp] theorem rules_single :
    (derived category rule [c] s score full mark).rules = rule :: c.rules := by
  simp [rules, rulesFrom]

variable {c l r : Cell K} {e : Entry}

theorem walk_of_entry? (h : c.entry? = some e) : c.entries = [e] ∧ c.rules = [] := by
  cases c with
  | lexical e' =>
    obtain rfl : e' = e := Option.some.inj h
    exact ⟨entries_lexical .., rules_lexical ..⟩
  | derived => cases h

theorem walk_of_pair (h : c.children = [l, r]) :
    c.entries = l.entries ++ r.entries ∧ c.rules = c.rule :: (l.rules ++ r.rules) := by
  cases c with
  | lexical => cases h
  | derived =>
    rw [children] at h
    subst h
    exact ⟨entries_pair .., rules_pair ..⟩

theorem walk_of_single (h : c.children = [l]) :
    c.entries = l.entries ∧ c.rules = c.rule :: l.rules := by
  cases c with
  | lexical => cases h
  | derived =>
    rw [children] at h
    subst h
    exact ⟨entries_single .., rules_single ..⟩

end Cell

end Categorial
