import Categorial.Proofs.Parsing.Completeness
import Categorial.Proofs.Parsing.Soundness

/-!
The entries and the rules of a derivation, as a tree and as a cell. Main statements: a cell that
stands for a derivation is made by its rules, and of its entries if no stored entry is the same as
one that skips a token; the entries have the tokens that the derivation covers; and where sums are
exact, a derivation is scored by the sum of the scores of its entries and of its rules.
-/

namespace Categorial

namespace Tree

/-- The entries of a tree, from left to right. -/
def entries : Tree → List Entry
  | entry e _ => [e]
  | pair _ left right => left.entries ++ right.entries
  | shift _ child => child.entries

/-- The rules of a tree, each before those of its parts. -/
def rules : Tree → List RuleName
  | entry .. => []
  | pair r left right => r.rule :: (left.rules ++ right.rules)
  | shift r child => r.rule :: child.rules

variable {K : Type}

/-- A cell is made by the rules of every tree that it stands for. -/
theorem rules_of_describes {T : Tree} {c : Cell K} (h : T.describes c = true) :
    c.rules = T.rules := by
  induction T generalizing c with
  | entry e s =>
    obtain ⟨-, e', he', -⟩ := describes_entry.1 h
    rw [(Cell.walk_of_entry? he').2, rules]
  | pair r left right ihl ihr =>
    obtain ⟨⟨hrule, -⟩, a, b, hchildren, ha, hb⟩ := describes_pair.1 h
    rw [(Cell.walk_of_pair hchildren).2, ihl ha, ihr hb, rules, hrule]
  | shift r child ih =>
    obtain ⟨⟨hrule, -⟩, a, hchildren, ha⟩ := describes_shift.1 h
    rw [(Cell.walk_of_single hchildren).2, ih ha, rules, hrule]

end Tree

/-- The tokens of a span are those of its two parts. -/
theorem Parser.tokensOf_append {tokens : List String} {start mid stop : Int} (hstart : 0 ≤ start)
    (hmid : start ≤ mid) (hstop : mid ≤ stop) : tokensOf tokens ⟨start, stop⟩ =
      tokensOf tokens ⟨start, mid⟩ ++ tokensOf tokens ⟨mid, stop⟩ := by
  have hlength : (stop - start).toNat = (mid - start).toNat + (stop - mid).toNat := by omega
  have hdrop : mid.toNat = start.toNat + (mid - start).toNat := by omega
  rw [tokensOf, tokensOf, tokensOf, hlength, List.take_add, List.drop_drop, ← hdrop]

/-- What stands between two parts of a list of tokens are the tokens of its span. -/
theorem Parser.tokensOf_between (before between after : List String) :
    tokensOf (before ++ between ++ after) ⟨before.length, before.length + between.length⟩ =
      between := by
  have hlength : ((before.length : Int) + between.length - before.length).toNat =
      between.length := by omega
  rw [tokensOf, List.append_assoc, Int.toNat_natCast, List.drop_left, hlength, List.take_left]

namespace Sentence

variable {K : Type} {t : Sentence K} {T : Tree}

/-- The entries of a derivation have the tokens that it covers. -/
theorem IsDerivation.tokens_eq (h : t.IsDerivation T) :
    Parser.tokensOf t.tokens T.span = T.entries.flatMap Entry.tokens := by
  induction h with
  | entry hs he =>
    rw [Tree.entries, List.flatMap_singleton, LexiconView.tokens_of_mem_get _ he, Tree.span]
  | skip => rw [Tree.entries, List.flatMap_singleton, Parser.skipper, Tree.span]
  | @pair r results left right hl hr hjoin _ _ ihl ihr =>
    obtain ⟨hstart, hlt, -⟩ := hasSpan_iff.1 hl.hasSpan
    obtain ⟨-, hlt', -⟩ := hasSpan_iff.1 hr.hasSpan
    have hspan : (⟨left.span.stop, right.span.stop⟩ : Span) = right.span := by rw [hjoin]
    rw [Tree.entries, List.flatMap_append, ← ihl, ← ihr, Tree.span,
      Parser.tokensOf_append hstart (Int.le_of_lt hlt) (hjoin ▸ Int.le_of_lt hlt'), hspan]
  | shift _ _ _ _ ih => exact ih

/-- Whether no stored entry is the same as one that skips a token. -/
def SkipsApart (t : Sentence K) : Prop :=
  t.parser.config.skipsWords = true → ∀ s, t.blank.hasSpan s = true → s.length = 1 →
    ∀ e ∈ t.view.get (Parser.tokensOf t.tokens s),
      e.same (Parser.skipper t.parser.skipped (Parser.tokensOf t.tokens s)) = false

variable [Scalar K]

/-- A cell is made of the entries of every derivation that it stands for. -/
theorem Derives.entries_eq (hapart : t.SkipsApart) {c : Cell K} (hc : t.Derives c)
    (hT : t.IsDerivation T) (h : T.describes c = true) : c.entries = T.entries := by
  induction hT generalizing c with
  -- A cell need only have an entry that is the same as that of the leaf. Of stored entries that are
  -- the same there is one, and of those that skip the token too; what is left is one of each.
  | @entry e s hs he =>
    obtain ⟨rfl, e', he', hsame⟩ := Tree.describes_entry.1 h
    obtain ⟨entries, hentries, hmem, -⟩ := hc.entry_mem he'
    rw [(Cell.walk_of_entry? he').1, Tree.entries]
    rcases (mem_entriesAt hentries).1 hmem with hmem | ⟨hskips, hone, rfl⟩
    · rw [LexiconView.eq_of_mem_get he hmem hsame]
    · rw [hapart hskips _ hs hone e he] at hsame
      exact Bool.noConfusion hsame
  | @skip s hs hskips hone =>
    obtain ⟨rfl, e', he', hsame⟩ := Tree.describes_entry.1 h
    obtain ⟨entries, hentries, hmem, -⟩ := hc.entry_mem he'
    rw [(Cell.walk_of_entry? he').1, Tree.entries]
    rcases (mem_entriesAt hentries).1 hmem with hmem | ⟨-, -, rfl⟩
    · rw [Entry.same_comm, hapart hskips _ hs hone e' hmem] at hsame
      exact Bool.noConfusion hsame
    · rfl
  | pair _ _ _ _ _ ihl ihr =>
    obtain ⟨-, a, b, hchildren, ha, hb⟩ := Tree.describes_pair.1 h
    rw [(Cell.walk_of_pair hchildren).1, ihl (hc.child (by simp [hchildren])) ha,
      ihr (hc.child (by simp [hchildren])) hb, Tree.entries]
  | shift _ _ _ _ ih =>
    obtain ⟨-, a, hchildren, ha⟩ := Tree.describes_shift.1 h
    rw [(Cell.walk_of_single hchildren).1, ih (hc.child (by simp [hchildren])) ha, Tree.entries]

/-- Where sums are exact, a tree is scored by the sum of the scores of its entries and of its
rules. -/
theorem scoreTree_eq_sum (hexact : Scalar.Exact K) {xs ys : List K}
    (hentries : T.entries.mapM t.model.scoreEntry = .ok xs)
    (hrules : T.rules.mapM t.model.scoreRule = .ok ys) :
    t.scoreTree T = .ok (Scalar.sum xs + Scalar.sum ys) := by
  induction T generalizing xs ys with
  | entry e s =>
    obtain ⟨x, xs, hx, hnone, rfl⟩ := mapM_cons_eq_ok.1 hentries
    obtain rfl : [] = xs := Except.ok.inj hnone
    obtain rfl : [] = ys := Except.ok.inj hrules
    rw [scoreTree, hx, hexact.sum_singleton]
    exact congrArg _ (hexact.add_zero x).symm
  | pair r left right ihl ihr =>
    obtain ⟨xs, xs', hxs, hxs', rfl⟩ := mapM_append_eq_ok.1 hentries
    obtain ⟨y, zs, hy, hzs, rfl⟩ := mapM_cons_eq_ok.1 hrules
    obtain ⟨ys, ys', hys, hys', rfl⟩ := mapM_append_eq_ok.1 hzs
    rw [scoreTree, ihl hxs hys, ihr hxs' hys']
    refine (scoreNode_eq_ok hexact).2 ⟨y, hy, ?_⟩
    rw [hexact.sum_append, hexact.sum_cons y, hexact.sum_append, hexact.sum_cons,
      hexact.sum_singleton, hexact.add_comm y, ← hexact.add_assoc, hexact.add_add_add_comm]
  | shift r child ih =>
    obtain ⟨y, ys, hy, hys, rfl⟩ := mapM_cons_eq_ok.1 hrules
    rw [scoreTree, ih hentries hys]
    refine (scoreNode_eq_ok hexact).2 ⟨y, hy, ?_⟩
    rw [hexact.sum_singleton, hexact.sum_cons, hexact.add_comm y, hexact.add_assoc]

end Sentence

end Categorial
