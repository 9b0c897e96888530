import BuildLexer.Context.Basic
import BuildLexer.Context.Flag
import BuildLexer.Context.Stack
import BuildLexer.Diagnostic.Basic
import BuildLexer.Diagnostic.Collection
import BuildLexer.Diagnostic.Merge
import BuildLexer.Diagnostic.Render
import BuildLexer.Fault
import BuildLexer.Literal.Escape
import BuildLexer.Literal.Name
import BuildLexer.Literal.Number
import BuildLexer.Literal.RawString
import BuildLexer.Literal.Temporal
import BuildLexer.Plan.Basic
import BuildLexer.Plan.Code
import BuildLexer.Plan.Marks
import BuildLexer.Plan.Nesting
import BuildLexer.Plan.Reference
import BuildLexer.Plan.Step
import BuildLexer.Plan.Text
import BuildLexer.Proofs.Balance.Run
import BuildLexer.Proofs.Balance.Text
import BuildLexer.Proofs.Bounds.Cursor
import BuildLexer.Proofs.Bounds.Numbers
import BuildLexer.Proofs.Bounds.Places
import BuildLexer.Proofs.Bounds.Session
import BuildLexer.Proofs.Bounds.Temporal
import BuildLexer.Proofs.Bounds.Texts
import BuildLexer.Proofs.Brackets.Matching
import BuildLexer.Proofs.Comments.Discarded
import BuildLexer.Proofs.Comments.Hash
import BuildLexer.Proofs.Comments.Influence
import BuildLexer.Proofs.Comments.Jump
import BuildLexer.Proofs.Comments.Modes
import BuildLexer.Proofs.Comments.Twins
import BuildLexer.Proofs.Diagnostics.FirstMessage
import BuildLexer.Proofs.Diagnostics.Multiples
import BuildLexer.Proofs.Diagnostics.Order
import BuildLexer.Proofs.Diagnostics.Words
import BuildLexer.Proofs.Encoding.Order
import BuildLexer.Proofs.Encoding.Reference
import BuildLexer.Proofs.Encoding.Reported
import BuildLexer.Proofs.Escape.Grammar
import BuildLexer.Proofs.Escape.InString
import BuildLexer.Proofs.Files.Elsewhere
import BuildLexer.Proofs.Files.Embedding
import BuildLexer.Proofs.Files.Owner
import BuildLexer.Proofs.Files.Resolution
import BuildLexer.Proofs.Illegal.Reported
import BuildLexer.Proofs.Join.HandOver
import BuildLexer.Proofs.Join.Lines
import BuildLexer.Proofs.Join.Mirror
import BuildLexer.Proofs.Join.Sources
import BuildLexer.Proofs.Literal.Digits
import BuildLexer.Proofs.Literal.Findings
import BuildLexer.Proofs.Literal.OneLine
import BuildLexer.Proofs.Lookahead.Literals
import BuildLexer.Proofs.Lookahead.Plans
import BuildLexer.Proofs.Merge.Content
import BuildLexer.Proofs.Merge.Everywhere
import BuildLexer.Proofs.Merge.Grouping
import BuildLexer.Proofs.Merge.Idempotence
import BuildLexer.Proofs.Merge.Limit
import BuildLexer.Proofs.Merge.Normal
import BuildLexer.Proofs.Merge.Provenance
import BuildLexer.Proofs.Merge.Recursion
import BuildLexer.Proofs.Merge.Structural
import BuildLexer.Proofs.Merge.Trees
import BuildLexer.Proofs.Name.Recognition
import BuildLexer.Proofs.Nesting.Enclosed
import BuildLexer.Proofs.Nesting.Invariant
import BuildLexer.Proofs.Nesting.Layers
import BuildLexer.Proofs.Nesting.LineEnd
import BuildLexer.Proofs.Nesting.Openers
import BuildLexer.Proofs.Nesting.Sound
import BuildLexer.Proofs.Nesting.Steps
import BuildLexer.Proofs.Nesting.Turns
import BuildLexer.Proofs.Number.Faults
import BuildLexer.Proofs.Number.Numeral
import BuildLexer.Proofs.Number.Reading
import BuildLexer.Proofs.Number.Recognition
import BuildLexer.Proofs.Number.Separators
import BuildLexer.Proofs.Number.Strict
import BuildLexer.Proofs.Positions.Ahead
import BuildLexer.Proofs.Positions.Exact
import BuildLexer.Proofs.Positions.Informed
import BuildLexer.Proofs.Positions.Lines
import BuildLexer.Proofs.Progress.Call
import BuildLexer.Proofs.Progress.Collected
import BuildLexer.Proofs.Progress.Session
import BuildLexer.Proofs.Progress.Source
import BuildLexer.Proofs.Punctuation.Longest
import BuildLexer.Proofs.Punctuation.Split
import BuildLexer.Proofs.Recipes.Expected
import BuildLexer.Proofs.Recipes.Headers
import BuildLexer.Proofs.Recipes.LineStart
import BuildLexer.Proofs.Scanner.Code
import BuildLexer.Proofs.Scanner.Effect
import BuildLexer.Proofs.Scanner.Findings
import BuildLexer.Proofs.Scanner.Passage
import BuildLexer.Proofs.Scanner.Reachable
import BuildLexer.Proofs.Scanner.Reports
import BuildLexer.Proofs.Scanner.Told
import BuildLexer.Proofs.Strings.Closing
import BuildLexer.Proofs.Strings.Raw
import BuildLexer.Proofs.Temporal.Recognition
import BuildLexer.Proofs.Temporal.Stamp
import BuildLexer.Proofs.Tiling.Rules
import BuildLexer.Proofs.Tiling.Run
import BuildLexer.Proofs.Tiling.Written
import BuildLexer.Scanner.Basic
import BuildLexer.Scanner.Scan
import BuildLexer.Source.File
import BuildLexer.Source.FileSet
import BuildLexer.Source.Position
import BuildLexer.Text.Alphabetic
import BuildLexer.Text.CodeRanges
import BuildLexer.Text.Glyph
import BuildLexer.Text.Glyph.Reading
import BuildLexer.Text.Letter
import BuildLexer.Text.Lossy
import BuildLexer.Text.Numeric
import BuildLexer.Text.Utf8
import BuildLexer.Text.Utf8.Encoding
import BuildLexer.Token.Kind
import BuildLexer.Token.Spelling
import BuildLexer.Token.Table
import BuildLexer.Tokenize
