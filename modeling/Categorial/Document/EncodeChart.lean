import Categorial.Chart.Workbench
import Categorial.Document.Encode

/-!
Documents that show cells.
-/

namespace Categorial

namespace Cell

/-- The document that shows a cell in short. -/
def toJson (c : Cell Number) : Except Fault Json := do
  return .object [("str", .text (← c.text)), ("cat", c.category.toJson),
    ("score", ← c.score.scoreJson), ("full", .bool c.full)]

/-- The document that shows a cell and its derivation. -/
def toFullJson (c : Cell Number) (rank : Rank Number) (full : Bool) : Except Fault Json := do
  let short ← c.toJson
  let prune := [← rank.primary.scoreJson, ← rank.second.scoreJson]
  return .object (short.fields ++ [("span", .array [.int c.span.start, .int c.span.stop]),
    ("lexical", .bool c.entry?.isSome), ("rule", .text c.rule.text),
    ("syn", Typing.nameJson c.category.type), ("sem", c.category.meaning.toJson),
    ("tree", .text c.tree), ("prune", .array prune), ("is_full", .bool full),
    ("entries", .texts (c.entries.map (·.text))), ("rules", .texts (c.rules.map (·.text)))])

/-- The document that shows some cells by their texts. -/
def textsJson (cells : List (Cell Number)) : Except Fault Json :=
  Json.texts <$> cells.mapM Cell.text

end Cell

end Categorial
