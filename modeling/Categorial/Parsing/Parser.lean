import Categorial.Chart.Basic
import Categorial.Chart.Ranking
import Categorial.Grammar
import Categorial.Lexicon.View
import Categorial.Model.Basic
import Categorial.Parsing.Config

/-!
The parser. First the entries of the lexicon are placed on the spans of their tokens; then every
span is filled from the spans it splits into, the shorter spans first, and the rules for one
category are applied once to the cells found so far. Each cell is offered to the chart of its span.

The span of a sentence is `[0, n)`. Cells of the parser have no mark: two of them are one node when
they are the same derivation.
-/

namespace Categorial

structure Parser (K : Type) where
  grammar : Grammar
  config : ParserConfig
  ranking : Ranking K
  /-- The category of skipped tokens. -/
  skipped : Category
  /-- Whether every chart is reported on: in full to the reader, and in short in a note. -/
  reports : Bool

/-- The entries besides those of the model that a parse may use, and the size of its beams. -/
structure ParseOptions where
  extra : Option Lexicon
  /-- Takes the place of the beam size of the settings. -/
  beamSize : Option Number

namespace ParseOptions

/-- The model's own entries and the settings of the parser. -/
def plain : ParseOptions := ⟨none, none⟩

end ParseOptions

namespace Parser

variable {K : Type} [Scalar K]

/-- The parser with the given parts. If tokens may be skipped and no rule absorbs skipped tokens,
the rules that do are added. -/
def create (grammar : Grammar) (config : ParserConfig) (ranking : Ranking K) (skipped : Category)
    (reports : Bool) : Parser K :=
  let grammar :=
    if config.skipsWords && !grammar.hasSkipping then grammar.withSkipping else grammar
  ⟨grammar, config, ranking, skipped, reports⟩

/-- The lexicon of a parse: that of the model, and further entries behind it. -/
def lexicon (m : Model K) (extra : Option Lexicon) : LexiconView :=
  match extra with
  | none => .single m.lexicon
  | some extra => .union [.single m.lexicon, .single extra]

/-- Offers the cell of an entry at a span to the chart. -/
def offerEntry (p : Parser K) (m : Model K) (chart : Chart K) (placed : Entry × Span) :
    Traced (Chart K) := do
  let (e, s) := placed
  let score ← .ofExcept (m.scoreEntry e)
  let cell ← .ofExcept (Cell.ofEntry e s score (chart.isFullParse s e.category) 0)
  return (← chart.insert cell (p.ranking.rank cell)).2

/-- Offers the cell of a result on children to the chart. Its score is the sum of those of the
children and of the rule. -/
def offerResult (p : Parser K) (m : Model K) (children : List (Cell K)) (chart : Chart K)
    (r : RuleResult) : Traced (Chart K) := do
  let childScore ← .ofExcept (Scalar.total (children.map fun child => .ok child.score))
  let ruleScore ← .ofExcept (m.scoreRule r.rule)
  let score ← .ofExcept (Scalar.plus childScore ruleScore)
  let s ← .ofExcept (Cell.spanOf children)
  let cell ← .ofExcept
    (Cell.ofChildren r.category r.rule children score (chart.isFullParse s r.category) 0)
  return (← chart.insert cell (p.ranking.rank cell)).2

def tokensOf (tokens : List String) (s : Span) : List String :=
  (tokens.drop s.start.toNat).take (s.stop - s.start).toNat

/-- The spans of `n` tokens that have at most `longest` tokens, from left to right and the shorter
ones first. -/
def lexicalSpans (n longest : Nat) : List Span :=
  (List.range n).flatMap fun (i : Nat) =>
    (List.range (min longest (n - i))).map fun (j : Nat) => ⟨i, i + j + 1⟩

/-- The entries of a lexicon for the tokens of each span. -/
def placements (view : LexiconView) (tokens : List String) : List (Entry × Span) :=
  (lexicalSpans tokens.length (min tokens.length view.maxEntryLength)).flatMap fun s =>
    (view.get (tokensOf tokens s)).map fun e => (e, s)

/-- An entry that skips the token at each position. -/
def skippers (skipped : Category) (tokens : List String) :
    Except Fault (List (Entry × Span)) :=
  tokens.zipIdx.mapM fun (token, i) => do
    let e ← Entry.create [token] skipped .skipping []
    return (e, ⟨i, i + 1⟩)

/-- Offers the cells of all entries to the chart, the skipped tokens last. -/
def addEntries (p : Parser K) (m : Model K) (view : LexiconView) (tokens : List String)
    (chart : Chart K) : Traced (Chart K) := do
  let chart ← (placements view tokens).foldlM (p.offerEntry m) chart
  if p.config.skipsWords then
    let skippers ← .ofExcept (skippers p.skipped tokens)
    skippers.foldlM (p.offerEntry m) chart
  else return chart

/-- The spans that a span splits into, from left to right. -/
def splits (s : Span) : List (Span × Span) :=
  (List.range (s.stop - s.start - 1).toNat).map fun (i : Nat) =>
    (⟨s.start, s.start + i + 1⟩, ⟨s.start + i + 1, s.stop⟩)

/-- Applies the rules for two categories to two cells that lie side by side. -/
def combine (p : Parser K) (m : Model K) (chart : Chart K) (pair : Cell K × Cell K) :
    Traced (Chart K) := do
  let results ← p.grammar.applyBinary pair.1.category pair.2.category
  results.foldlM (p.offerResult m [pair.1, pair.2]) chart

/-- Combines the cells of two spans that lie side by side. -/
def combineSpans (p : Parser K) (m : Model K) (chart : Chart K) (parts : Span × Span) :
    Traced (Chart K) := do
  let lefts ← .ofExcept (chart.cells parts.1)
  let rights ← .ofExcept (chart.cells parts.2)
  (lefts.flatMap fun left => rights.map fun right => (left, right)).foldlM (p.combine m) chart

/-- Applies the rules for one category to a cell. -/
def shift (p : Parser K) (m : Model K) (chart : Chart K) (cell : Cell K) :
    Traced (Chart K) := do
  let results ← p.grammar.applyUnary cell.category
  results.foldlM (p.offerResult m [cell]) chart

/-- Fills a span: the cells of its parts are combined, and then the rules for one category are
applied to the cells it holds. -/
def fillSpan (p : Parser K) (m : Model K) (chart : Chart K) (s : Span) : Traced (Chart K) := do
  let chart ← (splits s).foldlM (p.combineSpans m) chart
  let cells ← .ofExcept (chart.cells s)
  cells.foldlM (p.shift m) chart

/-- Fills spans one after the other. -/
def fill (p : Parser K) (m : Model K) (spans : List Span) (chart : Chart K) : Traced (Chart K) :=
  spans.foldlM (p.fillSpan m) chart

/-- The chart of a sentence. -/
def chart (p : Parser K) (m : Model K) (tokens : List String) (options : ParseOptions) :
    Traced (Chart K) := do
  let beamSize := options.beamSize.getD p.config.beamSize
  let chart ← .ofExcept (Chart.create tokens.length beamSize p.config.root)
  let chart ← p.addEntries m (lexicon m options.extra) tokens chart
  let chart ← p.fill m chart.spans chart
  if p.reports then
    let _ ← .ofExcept (chart.summary true)
    .note (.report .info (← .ofExcept (chart.summary false)))
  return chart

end Parser

end Categorial
