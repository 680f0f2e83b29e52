import Categorial.Lexicon.Basic

/-!
Reading one or several lexicons at once. A union shows the entries of its parts without repetitions;
of equal entries the one in the earliest part is shown. Main statements: leaving out repetitions
adds no entry, and every entry is the same as one that is left.
-/

namespace Categorial

/-- A lexicon, or a union of views. -/
inductive LexiconView where
  | single (lexicon : Lexicon)
  | union (parts : List LexiconView)

namespace LexiconView

/-- The entries without those that are the same as an earlier one. -/
def distinctEntries (entries : List Entry) : List Entry := distinct Entry.same entries

mutual

/-- The entries of a token sequence. -/
def get (tokens : List String) : LexiconView → List Entry
  | single lexicon => lexicon.get tokens
  | union parts => distinctEntries (getAll tokens parts)

/-- The entries of a token sequence in each of some views. -/
def getAll (tokens : List String) : List LexiconView → List Entry
  | [] => []
  | part :: parts => get tokens part ++ getAll tokens parts

end

mutual

def contains (e : Entry) : LexiconView → Bool
  | single lexicon => lexicon.contains e
  | union parts => anyContains e parts

def anyContains (e : Entry) : List LexiconView → Bool
  | [] => false
  | part :: parts => contains e part || anyContains e parts

end

mutual

/-- The number of tokens of the longest entry. -/
def maxEntryLength : LexiconView → Nat
  | single lexicon => lexicon.maxEntryLength
  | union parts => maxOfAll parts

/-- The number of tokens of the longest entry of some views. -/
def maxOfAll : List LexiconView → Nat
  | [] => 0
  | part :: parts => max (maxEntryLength part) (maxOfAll parts)

end

mutual

def entries : LexiconView → List Entry
  | single lexicon => lexicon.entries
  | union parts => distinctEntries (entriesOfAll parts)

/-- All entries of some views, one after the other. -/
def entriesOfAll : List LexiconView → List Entry
  | [] => []
  | part :: parts => entries part ++ entriesOfAll parts

end

/-- The number of entries, which a union counts whenever it is asked. -/
def size : LexiconView → Nat
  | single lexicon => lexicon.size
  | union parts => (distinctEntries (entriesOfAll parts)).length

mutual

def text : LexiconView → String
  | single lexicon => lexicon.text
  | union parts => "LexiconUnion(" ++ ", ".intercalate (textOfAll parts) ++ ")"

def textOfAll : List LexiconView → List String
  | [] => []
  | part :: parts => text part :: textOfAll parts

end

/-- The report on a view, a line for each entry. -/
def summary (view : LexiconView) : String :=
  Text.block (("Lexicon Entries (" ++ toString view.size ++ "):") ::
    view.entries.map fun e => Text.indent e.text)

theorem mem_of_mem_distinctEntries {entries : List Entry} {e : Entry}
    (h : e ∈ distinctEntries entries) : e ∈ entries :=
  mem_of_mem_distinct h

/-- Every entry is the same as one that is left. -/
theorem exists_distinctEntries {entries : List Entry} {e : Entry} (h : e ∈ entries) :
    ∃ e' ∈ distinctEntries entries, e'.same e = true :=
  exists_distinct Entry.same_refl h

end LexiconView

end Categorial
