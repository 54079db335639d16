import CssHighlight.Binary64.Basic
import CssHighlight.Binary64.Shortest
import CssHighlight.CharClass
import CssHighlight.Classify
import CssHighlight.CommandLine.Conventional
import CssHighlight.CommandLine.Failure
import CssHighlight.CommandLine.Frontend
import CssHighlight.CommandLine.Help
import CssHighlight.CommandLine.Listing
import CssHighlight.CommandLine.Options
import CssHighlight.CommandLine.Run
import CssHighlight.CommandLine.Trace
import CssHighlight.Config.Basic
import CssHighlight.Config.Search
import CssHighlight.Context
import CssHighlight.Cursor
import CssHighlight.Dialect
import CssHighlight.Document.Basic
import CssHighlight.Document.Edit
import CssHighlight.Document.Lines
import CssHighlight.Document.Tokens
import CssHighlight.Files.Path
import CssHighlight.Files.Resolve
import CssHighlight.Files.Text
import CssHighlight.Files.Tree
import CssHighlight.Highlight
import CssHighlight.Keyword.Cache
import CssHighlight.Keyword.File
import CssHighlight.Keyword.List
import CssHighlight.Keyword.Set
import CssHighlight.LineState
import CssHighlight.Main
import CssHighlight.Position
import CssHighlight.Scan.InPlace
import CssHighlight.Scan.Journal
import CssHighlight.Scan.Machine
import CssHighlight.Scan.Range
import CssHighlight.Scan.Step
import CssHighlight.Scan.Token
import CssHighlight.Style
import CssHighlight.Stylesheet
import CssHighlight.Text.Blank
import CssHighlight.Text.Case
import CssHighlight.Text.CaseContext
import CssHighlight.Text.CaseTable
import CssHighlight.Text.ControlSequence
import CssHighlight.Text.Integer
import CssHighlight.Text.Printable
import CssHighlight.Text.Quoted
import CssHighlight.Text.Ranges
import CssHighlight.Text.Similarity
import CssHighlight.Toml.Document
import CssHighlight.Toml.Lexeme
import CssHighlight.Toml.Table
import CssHighlight.Value
import CssHighlight.Proofs.LineTable
import CssHighlight.Proofs.Glance
import CssHighlight.Proofs.Simulation
import CssHighlight.Proofs.Output
import CssHighlight.Proofs.Steady
import CssHighlight.Proofs.Resume
import CssHighlight.Proofs.Scanned
import CssHighlight.Proofs.PositionIndependence
import CssHighlight.Proofs.SharedPrefix
import CssHighlight.Proofs.Editing
import CssHighlight.Proofs.Session
import CssHighlight.Proofs.Reachable
import CssHighlight.Proofs.Rules
import CssHighlight.Proofs.Nesting
import CssHighlight.Proofs.Stored
import CssHighlight.Proofs.InPlace
import CssHighlight.Proofs.Misuse
import CssHighlight.Proofs.Fitting
import CssHighlight.Proofs.Accounting
import CssHighlight.Proofs.Folding
import CssHighlight.Proofs.LetterCase
import CssHighlight.Proofs.Parallel
import CssHighlight.Proofs.Lockstep
import CssHighlight.Proofs.Variants
import CssHighlight.Proofs.KeywordLookup
import CssHighlight.Proofs.Sheet
import CssHighlight.Proofs.Between
import CssHighlight.Proofs.SheetStyles
import CssHighlight.Proofs.LineBreaks
import CssHighlight.Proofs.Painting
import CssHighlight.Proofs.Comments
import CssHighlight.Proofs.Blanking
import CssHighlight.Proofs.Parens
import CssHighlight.Proofs.Spelling
import CssHighlight.Proofs.Tracking
import CssHighlight.Proofs.Depths
import CssHighlight.Proofs.Resolving
import CssHighlight.Proofs.LargerStack
import CssHighlight.Proofs.Writing
import CssHighlight.Proofs.CacheRuns
import CssHighlight.Proofs.CacheContents
import CssHighlight.Proofs.Openings
import CssHighlight.Proofs.SettingsSearch
import CssHighlight.Proofs.Layering
import CssHighlight.Proofs.Obstacles
import CssHighlight.Proofs.OptionReading
import CssHighlight.Proofs.Reporting
import CssHighlight.Proofs.Replacing
import CssHighlight.Proofs.LastLine
import CssHighlight.Proofs.Journal
import CssHighlight.Proofs.NameRuns
import CssHighlight.Proofs.Justified
import CssHighlight.Proofs.Runs
import CssHighlight.Proofs.CommentExtents
import CssHighlight.Proofs.LongestMatch
import CssHighlight.Proofs.NumberExtents
import CssHighlight.Proofs.RangeExtents
import CssHighlight.Proofs.StringExtents
import CssHighlight.Proofs.LineCodec
import CssHighlight.Proofs.LineTexts
import CssHighlight.Proofs.TokenRuns
import CssHighlight.Proofs.Interpolation
import CssHighlight.Proofs.CursorTracking
import CssHighlight.Proofs.DialectNames
