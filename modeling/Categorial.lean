import Categorial.Category
import Categorial.Chart.Basic
import Categorial.Chart.Beam
import Categorial.Chart.Cell
import Categorial.Chart.Features
import Categorial.Chart.Ranking
import Categorial.Chart.Workbench
import Categorial.Collection.ByScore
import Categorial.Collection.Distinct
import Categorial.Collection.Gallop
import Categorial.Collection.Merge
import Categorial.Collection.Position
import Categorial.Collection.Ranked
import Categorial.Collection.Runs
import Categorial.Decimal.Binary
import Categorial.Decimal.Fixed
import Categorial.Decimal.Quotient
import Categorial.Decimal.Reading
import Categorial.Decimal.Shortest
import Categorial.Document.Decode
import Categorial.Document.DecodeChart
import Categorial.Document.DecodeLearner
import Categorial.Document.DecodeModel
import Categorial.Document.DecodeParser
import Categorial.Document.Encode
import Categorial.Document.EncodeChart
import Categorial.Document.EncodeLearner
import Categorial.Document.EncodeParse
import Categorial.Document.Json
import Categorial.Fault
import Categorial.Grammar
import Categorial.Learning.Config
import Categorial.Learning.Event
import Categorial.Learning.Item
import Categorial.Learning.Learner
import Categorial.Learning.Observer
import Categorial.Learning.Session
import Categorial.Learning.Stats
import Categorial.Learning.Templates
import Categorial.Lexicon.Basic
import Categorial.Lexicon.Entry
import Categorial.Lexicon.Shelf
import Categorial.Lexicon.View
import Categorial.Meaning.Call
import Categorial.Meaning.Equality
import Categorial.Meaning.Printing
import Categorial.Meaning.Value
import Categorial.Model.Basic
import Categorial.Model.Features
import Categorial.Model.Scorer
import Categorial.Model.ScorerConfig
import Categorial.Model.Vector
import Categorial.Note
import Categorial.Number
import Categorial.Parsing.Analyzer
import Categorial.Parsing.Config
import Categorial.Parsing.Derivation
import Categorial.Parsing.JointParse
import Categorial.Parsing.Parser
import Categorial.Proofs.Chart.Beam
import Categorial.Proofs.Chart.Calls
import Categorial.Proofs.Chart.Features
import Categorial.Proofs.Chart.Push
import Categorial.Proofs.Chart.Rank
import Categorial.Proofs.Chart.Room
import Categorial.Proofs.Chart.Step
import Categorial.Proofs.Chart.Streaming
import Categorial.Proofs.Chart.Walk
import Categorial.Proofs.Collection.ByScore
import Categorial.Proofs.Collection.Gather
import Categorial.Proofs.Collection.Ranked
import Categorial.Proofs.Collection.Top
import Categorial.Proofs.Decimal.Parts
import Categorial.Proofs.Grammar
import Categorial.Proofs.Learning.Frame
import Categorial.Proofs.Learning.Links
import Categorial.Proofs.Learning.Margin
import Categorial.Proofs.Learning.MistakeBound
import Categorial.Proofs.Learning.Recovery
import Categorial.Proofs.Learning.Teaching
import Categorial.Proofs.Learning.Updates
import Categorial.Proofs.Learning.Used
import Categorial.Proofs.Learning.Visits
import Categorial.Proofs.Lexicon.Addition
import Categorial.Proofs.Lexicon.Growth
import Categorial.Proofs.Lexicon.View
import Categorial.Proofs.Meaning.Equality
import Categorial.Proofs.Model.Addition
import Categorial.Proofs.Model.Changes
import Categorial.Proofs.Model.Growth
import Categorial.Proofs.Model.Indicators
import Categorial.Proofs.Model.Keys
import Categorial.Proofs.Model.Scores
import Categorial.Proofs.Model.Vector
import Categorial.Proofs.Model.Weights
import Categorial.Proofs.Number.Order
import Categorial.Proofs.Number.Whole
import Categorial.Proofs.Parsing.Agreement
import Categorial.Proofs.Parsing.Candidates
import Categorial.Proofs.Parsing.Completeness
import Categorial.Proofs.Parsing.Derivations
import Categorial.Proofs.Parsing.Entries
import Categorial.Proofs.Parsing.Executed
import Categorial.Proofs.Parsing.Groups
import Categorial.Proofs.Parsing.Linear
import Categorial.Proofs.Parsing.Offers
import Categorial.Proofs.Parsing.Outcome
import Categorial.Proofs.Parsing.Placements
import Categorial.Proofs.Parsing.Ranking
import Categorial.Proofs.Parsing.Replay
import Categorial.Proofs.Parsing.Run
import Categorial.Proofs.Parsing.Schedule
import Categorial.Proofs.Parsing.Soundness
import Categorial.Proofs.Parsing.Source
import Categorial.Proofs.Parsing.Tree
import Categorial.Proofs.Parsing.Uncut
import Categorial.Proofs.Rule.Composition
import Categorial.Proofs.Scalar.Exact
import Categorial.Proofs.Scalar.Order
import Categorial.Proofs.SyntaxType.Cutting
import Categorial.Proofs.SyntaxType.Denotation
import Categorial.Proofs.SyntaxType.Names
import Categorial.Proofs.Text.Blank
import Categorial.Proofs.Text.Joined
import Categorial.Rule.Binary
import Categorial.Rule.Coordination
import Categorial.Rule.Name
import Categorial.Rule.Services
import Categorial.Rule.Unary
import Categorial.Scalar
import Categorial.SyntaxType.Basic
import Categorial.SyntaxType.Reader
import Categorial.SyntaxType.System
import Categorial.Text.Blank
import Categorial.Text.Cased
import Categorial.Text.DecimalDigit
import Categorial.Text.Layout
import Categorial.Text.Lowercase
import Categorial.Text.Printable
import Categorial.Text.Quoted
import Categorial.Text.Uppercase
import Categorial.Traced
import Categorial.Proofs.Collection.Distinct
import Categorial.Proofs.Lexicon.Reads
import Categorial.Proofs.Model.Support
import Categorial.Proofs.Parsing.Rescore
import Categorial.Proofs.Learning.Direction
import Categorial.Proofs.Learning.Trace
import Categorial.Proofs.Learning.Tally
import Categorial.Proofs.Parsing.Leaves
import Categorial.Proofs.Parsing.Skipping
import Categorial.Proofs.Rule.Schema
import Categorial.Proofs.Chart.Removal
import Categorial.Proofs.Parsing.Totality
import Categorial.Proofs.Lexicon.Translation
import Categorial.Proofs.Parsing.Ample
import Categorial.Proofs.Parsing.Erasure
import Categorial.Proofs.Number.Sums
import Categorial.Proofs.SyntaxType.Mirror
import Categorial.Proofs.Rule.Mirror
import Categorial.Proofs.Parsing.Mirror
import Categorial.Proofs.Learning.Standstill
import Categorial.Proofs.Learning.Overlong
import Categorial.Proofs.Parsing.Best
import Categorial.Proofs.Parsing.Partition
import Categorial.Proofs.Parsing.Execution
import Categorial.Proofs.SyntaxType.Unlisted
import Categorial.Proofs.Parsing.Absorption
import Categorial.Proofs.Learning.Proposals
import Categorial.Proofs.Model.Configuration
import Categorial.Proofs.Scalar.Tolerant
import Categorial.Proofs.Number.Zeros
import Categorial.Proofs.Model.Copies
import Categorial.Proofs.Lexicon.Rebuilding
import Categorial.Proofs.Model.Rebuilding
import Categorial.Proofs.Model.Functions
import Categorial.Proofs.Chart.Recursion
