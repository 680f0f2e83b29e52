import Categorial.Proofs.Parsing.Agreement
import Categorial.Proofs.Parsing.Replay

/-!
Where the entries come from that a parse with further entries uses: from the model, from the further
entries, or from a token that is skipped. Main statement: the leaves of a derivation are such
entries at their spans, with the scores that the model gives to them.
-/

namespace Categorial

/-- Whether a span is one of `n` tokens. -/
def Span.Within (s : Span) (n : Nat) : Prop := 0 ≤ s.start ∧ s.start < s.stop ∧ s.stop ≤ n

namespace Parser

variable {p : Parser Rat} {m : Model Rat} {extra : Lexicon} {tokens : List String}
  {t : Sentence Rat} {s s' : Span} {e : Entry}

/-- Where the entries come from that a parse with further entries uses at a span. -/
inductive Source (p : Parser Rat) (m : Model Rat) (extra : Lexicon) (tokens : List String)
    (s : Span) : Entry → Prop where
  | known {e : Entry} (he : e ∈ m.lexicon.get (tokensOf tokens s)) : Source p m extra tokens s e
  | further {e : Entry} (he : e ∈ extra.get (tokensOf tokens s)) : Source p m extra tokens s e
  | skip (hskips : p.config.skipsWords = true) (hone : s.length = 1) :
      Source p m extra tokens s (skipper p.skipped (tokensOf tokens s))

theorem Source.tokens_eq (h : Source p m extra tokens s e) : e.tokens = tokensOf tokens s := by
  cases h with
  | known he => exact Lexicon.tokens_of_mem_get he
  | further he => exact Lexicon.tokens_of_mem_get he
  | skip => rfl

/-- What is used at a span can be used wherever its tokens stand. -/
theorem Source.at_tokens (h : Source p m extra tokens s e)
    (hs : s.Within tokens.length) (hs' : s'.Within tokens.length)
    (heq : tokensOf tokens s = tokensOf tokens s') : Source p m extra tokens s' e := by
  cases h with
  | known he => exact .known (heq ▸ he)
  | further he => exact .further (heq ▸ he)
  | skip hskips hone =>
    rw [heq]
    refine .skip hskips ?_
    rw [← length_tokensOf hs'.1 hs'.2.2, ← heq, length_tokensOf hs.1 hs.2.2, hone]

theorem skipper_mem (hskips : p.config.skipsWords = true) (hs : s.Within tokens.length)
    (hone : s.length = 1) : skipper p.skipped (tokensOf tokens s) ∈ p.skippedEntries tokens := by
  rw [← length_tokensOf hs.1 hs.2.2, List.length_eq_one_iff] at hone
  obtain ⟨token, htoken⟩ := hone
  have hmem : token ∈ tokensOf tokens s := by
    rw [htoken]
    exact List.mem_singleton_self token
  rw [skippedEntries, if_pos hskips, htoken]
  exact List.mem_map.2 ⟨token, List.mem_of_mem_drop (List.mem_of_mem_take hmem), rfl⟩

/-- These entries are entries of the model, further ones, or skip a token of the sentence. -/
theorem Source.mem (h : Source p m extra tokens s e) (hs : s.Within tokens.length) :
    e ∈ m.lexicon.entries ++ extra.entries ∨ e ∈ p.skippedEntries tokens := by
  cases h with
  | known he =>
    rw [Lexicon.get_eq_filter] at he
    exact Or.inl (List.mem_append_left _ (List.mem_filter.1 he).1)
  | further he =>
    rw [Lexicon.get_eq_filter] at he
    exact Or.inl (List.mem_append_right _ (List.mem_filter.1 he).1)
  | skip hskips hone => exact Or.inr (skipper_mem hskips hs hone)

/-- The leaves of a derivation with further entries, where they come from and what they score. -/
theorem source_of_derives {beamSize : Option Number}
    (ht : p.sentence m tokens ⟨some extra, beamSize⟩ = .ok t) {c leaf : Cell Rat}
    (hc : t.Derives c) (hleaf : leaf ∈ c.leaves) (he : leaf.entry? = some e) :
    leaf.span.Within tokens.length ∧ Source p m extra tokens leaf.span e ∧
      m.scoreEntry e = .ok leaf.score := by
  obtain ⟨rfl, rfl, -⟩ := parts_of_sentence ht
  obtain ⟨hview, rfl⟩ := view_of_sentence ht
  have hderives := hc.of_mem_leaves hleaf
  obtain ⟨entries, hentries, hmem, hscore⟩ := hderives.entry_mem he
  refine ⟨Sentence.hasSpan_iff.1 hderives.hasSpan, ?_, hscore⟩
  rcases (Sentence.mem_entriesAt hentries).1 hmem with hstored | ⟨hskips, hone, rfl⟩
  · rw [hview, lexicon, LexiconView.get] at hstored
    have hparts := LexiconView.mem_of_mem_distinctEntries hstored
    simp only [LexiconView.getAll, LexiconView.get, List.append_nil, List.mem_append] at hparts
    exact hparts.elim .known .further
  · exact .skip hskips hone

end Parser

end Categorial
