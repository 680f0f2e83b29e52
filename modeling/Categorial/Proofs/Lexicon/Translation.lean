import Categorial.Parsing.Parser
import Categorial.Proofs.Lexicon.Growth

/-!
Lexicons whose entries are changed one by one. The tokens of an entry decide those of the changed
one, and equal entries are changed into equal ones. Main statement: what a parse reads of changed
lexicons are the first ones of the changed entries.
-/

namespace Categorial

/-- Whether a function changes the tokens of entries by another one, and equal entries into equal
ones. -/
structure Entry.Translation (f : Entry → Entry) (g : List String → List String) : Prop where
  tokens : ∀ e, (f e).tokens = g e.tokens
  injective : Function.Injective g
  same : ∀ a b : Entry, a.same b = true → (f a).same (f b) = true

namespace Lexicon

/-- The lexicon of what a function makes of the entries of another one. -/
def translate (f : Entry → Entry) (lexicon : Lexicon) : Lexicon := ofList (lexicon.entries.map f)

variable {f : Entry → Entry} {g : List String → List String}

theorem get_translate (h : Entry.Translation f g) (lexicon : Lexicon) (tokens : List String) :
    (lexicon.translate f).get (g tokens) = distinct Entry.same ((lexicon.get tokens).map f) := by
  rw [translate, get_ofList, get_eq_filter, List.filter_map]
  simp only [Function.comp_def, h.tokens, h.injective.eq_iff]

end Lexicon

variable {K : Type} {f : Entry → Entry} {g : List String → List String}

/-- What a parse reads of changed lexicons are the first ones of the changed entries. -/
theorem Parser.get_lexicon_translate (h : Entry.Translation f g) {m m' : Model K}
    (hm : m'.lexicon = m.lexicon.translate f) (extra : Option Lexicon) (tokens : List String) :
    (lexicon m' (extra.map (Lexicon.translate f))).get (g tokens) =
      distinct Entry.same (((lexicon m extra).get tokens).map f) := by
  have hdistinct (es : List Entry) :
      distinct Entry.same ((distinct Entry.same es).map f) = distinct Entry.same (es.map f) :=
    distinct_map_distinct Entry.same_refl Entry.same_trans h.same es
  cases extra with
  | none =>
    simp only [lexicon, Option.map_none, LexiconView.get, hm, Lexicon.get_translate h]
  | some extra =>
    simp only [lexicon, Option.map_some, LexiconView.get, LexiconView.distinctEntries,
      LexiconView.getAll, List.append_nil, hm, Lexicon.get_translate h]
    rw [hdistinct, List.map_append, distinct_append Entry.same_refl Entry.same_trans]

end Categorial
