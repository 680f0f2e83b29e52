import Categorial.Lexicon.Basic
import Categorial.Number

/-!
Proposing entries for a sentence. Every template may give a category to every sequence of
neighbouring tokens, the shorter sequences first. Entries proposed for one sequence may be linked,
so that learning one of them means learning all. Main statement: an entry is linked to the others of
its sequence and not to itself.
-/

namespace Categorial

/-- A template: a category, or a function from the tokens of a sequence to a category. -/
inductive Template where
  | fixed (category : Category)
  | ofTokens (category : List String → Option Category)

/-- The category that a template gives to a sequence of tokens, if it gives one. -/
def Template.category? (tokens : List String) : Template → Option Category
  | fixed category => some category
  | ofTokens category => category tokens

/-- Templates, with the length of the longest sequence they are tried on. -/
structure Templates where
  templates : List Template
  /-- A length in tokens, which must be whole when entries are proposed. -/
  longest : Number
  /-- Whether the entries of one sequence are linked. -/
  linked : Bool
  /-- Tokens for which nothing is proposed. -/
  ignored : List String

namespace Templates

/-- The sequences of `n` neighbouring tokens, from left to right. -/
def sequences (tokens : List String) (n : Nat) : List (List String) :=
  (List.range (tokens.length + 1 - n)).map fun i => (tokens.drop i).take n

/-- The sequences of at most `longest` neighbouring tokens without ignored ones, the shorter ones
first. -/
def allSequences (t : Templates) (longest : Nat) (tokens : List String) : List (List String) :=
  let all := (List.range (min longest tokens.length)).flatMap fun n => sequences tokens (n + 1)
  all.filter fun sequence => !sequence.any fun token => t.ignored.contains token

/-- The entries that templates give to a sequence of tokens. -/
def propose (templates : List Template) (tokens : List String) : Except Fault (List Entry) :=
  (templates.filterMap (Template.category? tokens)).mapM fun category =>
    Entry.create tokens category .generated []

/-- Each entry of a list linked to the others; `before` stands before it. -/
def linkAll (before : List Entry) : List Entry → List Entry
  | [] => []
  | e :: es => { e with linked := before ++ es } :: linkAll (before ++ [e]) es

/-- The lexicon of the entries proposed for a sentence. -/
def generate (t : Templates) (tokens : List String) : Except Fault Lexicon := do
  let longest ← t.longest.whole
  (t.allSequences longest.toNat tokens).foldlM (fun lexicon sequence => do
    let entries ← propose t.templates sequence
    let entries := if t.linked then linkAll [] entries else entries
    return (lexicon.addAll entries).2) .empty

/-- An entry is linked to the entries around it. -/
theorem linked_of_mem_linkAll {before es : List Entry} {e : Entry} (h : e ∈ linkAll before es) :
    ∃ start e' rest, es = start ++ e' :: rest ∧
      e = { e' with linked := before ++ start ++ rest } := by
  induction es generalizing before with
  | nil => simp [linkAll] at h
  | cons x xs ih =>
    simp only [linkAll, List.mem_cons] at h
    rcases h with rfl | h
    · exact ⟨[], x, xs, rfl, by simp⟩
    · obtain ⟨start, e', rest, rfl, rfl⟩ := ih h
      exact ⟨x :: start, e', rest, rfl, by simp⟩

end Templates

end Categorial
