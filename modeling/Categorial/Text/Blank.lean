/-!
Blank characters and cutting a text at them. `words` cuts at every run of blanks and keeps no empty
piece; `trim` removes the blanks at both ends.
-/

namespace Categorial.Text

/-- Blank characters: the spaces of all widths, the line and paragraph separators, and the ASCII
controls that separate fields and lines. -/
def isBlank (c : Char) : Bool :=
  let n := c.toNat
  (0x9 ≤ n && n ≤ 0xd) || (0x1c ≤ n && n ≤ 0x20) || n == 0x85 || n == 0xa0 || n == 0x1680 ||
    (0x2000 ≤ n && n ≤ 0x200a) || n == 0x2028 || n == 0x2029 || n == 0x202f || n == 0x205f ||
    n == 0x3000

/-- The text without the blanks it ends with. -/
def trimEnd (cs : List Char) : List Char :=
  (cs.reverse.dropWhile isBlank).reverse

/-- The text without the blanks at either end. -/
def trim (cs : List Char) : List Char :=
  trimEnd (cs.dropWhile isBlank)

/-- The maximal runs of characters that are not blank, `run` being the one in progress. -/
def wordsFrom (run : List Char) : List Char → List (List Char)
  | [] => if run.isEmpty then [] else [run]
  | c :: cs =>
    if isBlank c then
      if run.isEmpty then wordsFrom [] cs else run :: wordsFrom [] cs
    else wordsFrom (run ++ [c]) cs

/-- The maximal runs of characters that are not blank, from left to right. -/
def words (s : String) : List String :=
  (wordsFrom [] s.toList).map String.ofList

/-- The text without the blanks it ends with, as a string. -/
def dropTrailingBlanks (s : String) : String :=
  String.ofList (trimEnd s.toList)

end Categorial.Text
