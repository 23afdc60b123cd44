import LosslessBasic.Block
import LosslessBasic.Command.Argument
import LosslessBasic.Command.ArgumentVector
import LosslessBasic.Command.Configuration
import LosslessBasic.Command.Run
import LosslessBasic.Diagnostic
import LosslessBasic.Diagnostic.Excerpt
import LosslessBasic.Diagnostic.Log
import LosslessBasic.Diagnostic.Report
import LosslessBasic.Document
import LosslessBasic.Failure
import LosslessBasic.Grammar.Body
import LosslessBasic.Grammar.Boundary
import LosslessBasic.Grammar.Conditional
import LosslessBasic.Grammar.Declaration
import LosslessBasic.Grammar.Designer
import LosslessBasic.Grammar.Expression
import LosslessBasic.Grammar.Lookahead
import LosslessBasic.Grammar.Loop
import LosslessBasic.Grammar.Operator
import LosslessBasic.Grammar.Procedure
import LosslessBasic.Grammar.Select
import LosslessBasic.Grammar.Simple
import LosslessBasic.Grammar.State
import LosslessBasic.Grammar.Statement
import LosslessBasic.Kind
import LosslessBasic.Kind.Keyword
import LosslessBasic.Kind.Keyword.Lookup
import LosslessBasic.Kind.Lexeme
import LosslessBasic.Kind.Node
import LosslessBasic.Kind.Trivia
import LosslessBasic.Lexer
import LosslessBasic.Lexer.Date
import LosslessBasic.Lexer.Number
import LosslessBasic.Lexer.Scan
import LosslessBasic.Main
import LosslessBasic.Problem
import LosslessBasic.Proofs.Command.Argument
import LosslessBasic.Proofs.Command.Configuration
import LosslessBasic.Proofs.Command.Run
import LosslessBasic.Proofs.Diagnostic.Excerpt
import LosslessBasic.Proofs.Diagnostic.Header
import LosslessBasic.Proofs.Diagnostic.Report
import LosslessBasic.Proofs.Document
import LosslessBasic.Proofs.Document.Accounts
import LosslessBasic.Proofs.Document.Alike
import LosslessBasic.Proofs.Document.Append
import LosslessBasic.Proofs.Document.Blanks
import LosslessBasic.Proofs.Document.Calls
import LosslessBasic.Proofs.Document.Case
import LosslessBasic.Proofs.Document.Cover
import LosslessBasic.Proofs.Document.Dump
import LosslessBasic.Proofs.Document.Encoding
import LosslessBasic.Proofs.Document.Fragments
import LosslessBasic.Proofs.Document.Labels
import LosslessBasic.Proofs.Document.Layout
import LosslessBasic.Proofs.Document.LineBreaks
import LosslessBasic.Proofs.Document.Location
import LosslessBasic.Proofs.Document.Lookup
import LosslessBasic.Proofs.Document.Order
import LosslessBasic.Proofs.Document.Reference
import LosslessBasic.Proofs.Document.Separators
import LosslessBasic.Proofs.Document.Synchronization
import LosslessBasic.Proofs.Document.WellFormed
import LosslessBasic.Proofs.Grammar.Accounts
import LosslessBasic.Proofs.Grammar.Additions
import LosslessBasic.Proofs.Grammar.Alike
import LosslessBasic.Proofs.Grammar.Anchor
import LosslessBasic.Proofs.Grammar.Assignment
import LosslessBasic.Proofs.Grammar.Balance
import LosslessBasic.Proofs.Grammar.BlockLines
import LosslessBasic.Proofs.Grammar.Blocks
import LosslessBasic.Proofs.Grammar.Bodies
import LosslessBasic.Proofs.Grammar.BodiesAlike
import LosslessBasic.Proofs.Grammar.BodiesTrimmed
import LosslessBasic.Proofs.Grammar.BodyLayout
import LosslessBasic.Proofs.Grammar.Carry
import LosslessBasic.Proofs.Grammar.Composition
import LosslessBasic.Proofs.Grammar.Conditionals
import LosslessBasic.Proofs.Grammar.Conservation
import LosslessBasic.Proofs.Grammar.Depth
import LosslessBasic.Proofs.Grammar.Designers
import LosslessBasic.Proofs.Grammar.Dispatch
import LosslessBasic.Proofs.Grammar.Endings
import LosslessBasic.Proofs.Grammar.Forest
import LosslessBasic.Proofs.Grammar.Headers
import LosslessBasic.Proofs.Grammar.Inline
import LosslessBasic.Proofs.Grammar.Isolation
import LosslessBasic.Proofs.Grammar.Items
import LosslessBasic.Proofs.Grammar.Layout
import LosslessBasic.Proofs.Grammar.Line
import LosslessBasic.Proofs.Grammar.LineStarts
import LosslessBasic.Proofs.Grammar.Lines
import LosslessBasic.Proofs.Grammar.Lookahead
import LosslessBasic.Proofs.Grammar.LooseLines
import LosslessBasic.Proofs.Grammar.Members
import LosslessBasic.Proofs.Grammar.Naming
import LosslessBasic.Proofs.Grammar.Obligations
import LosslessBasic.Proofs.Grammar.OneLine
import LosslessBasic.Proofs.Grammar.Operands
import LosslessBasic.Proofs.Grammar.Operation
import LosslessBasic.Proofs.Grammar.Order
import LosslessBasic.Proofs.Grammar.Ordinary
import LosslessBasic.Proofs.Grammar.Parts
import LosslessBasic.Proofs.Grammar.PartsAlike
import LosslessBasic.Proofs.Grammar.PartsTrimmed
import LosslessBasic.Proofs.Grammar.PendingNext
import LosslessBasic.Proofs.Grammar.Phrasal
import LosslessBasic.Proofs.Grammar.Phrases
import LosslessBasic.Proofs.Grammar.Placement
import LosslessBasic.Proofs.Grammar.Plan
import LosslessBasic.Proofs.Grammar.Powers
import LosslessBasic.Proofs.Grammar.Progress
import LosslessBasic.Proofs.Grammar.Quota
import LosslessBasic.Proofs.Grammar.Reading
import LosslessBasic.Proofs.Grammar.Reference
import LosslessBasic.Proofs.Grammar.Regular
import LosslessBasic.Proofs.Grammar.Repetition
import LosslessBasic.Proofs.Grammar.Separation
import LosslessBasic.Proofs.Grammar.Settle
import LosslessBasic.Proofs.Grammar.SimpleStatement
import LosslessBasic.Proofs.Grammar.SoftKeywords
import LosslessBasic.Proofs.Grammar.Source
import LosslessBasic.Proofs.Grammar.Standing
import LosslessBasic.Proofs.Grammar.StatementLines
import LosslessBasic.Proofs.Grammar.StatementsAlike
import LosslessBasic.Proofs.Grammar.Succession
import LosslessBasic.Proofs.Grammar.Synchronization
import LosslessBasic.Proofs.Grammar.Termination
import LosslessBasic.Proofs.Grammar.Transparency
import LosslessBasic.Proofs.Grammar.Trim
import LosslessBasic.Proofs.Grammar.Unclosed
import LosslessBasic.Proofs.Grammar.WellFounded
import LosslessBasic.Proofs.Kind.Lookup
import LosslessBasic.Proofs.Lexer.Alone
import LosslessBasic.Proofs.Lexer.Append
import LosslessBasic.Proofs.Lexer.Blanks
import LosslessBasic.Proofs.Lexer.Boundaries
import LosslessBasic.Proofs.Lexer.Comments
import LosslessBasic.Proofs.Lexer.DateGrammar
import LosslessBasic.Proofs.Lexer.Dates
import LosslessBasic.Proofs.Lexer.Division
import LosslessBasic.Proofs.Lexer.Lookahead
import LosslessBasic.Proofs.Lexer.Names
import LosslessBasic.Proofs.Lexer.NumberGrammar
import LosslessBasic.Proofs.Lexer.NumbersRespelled
import LosslessBasic.Proofs.Lexer.Respelling
import LosslessBasic.Proofs.Lexer.SourcesRespelled
import LosslessBasic.Proofs.Lexer.Tokens
import LosslessBasic.Proofs.Lexer.TokensRespelled
import LosslessBasic.Proofs.Program.Blocks
import LosslessBasic.Proofs.Program.Bodies
import LosslessBasic.Proofs.Program.Clauses
import LosslessBasic.Proofs.Program.Lines
import LosslessBasic.Proofs.Program.Passes
import LosslessBasic.Proofs.Program.Procedure
import LosslessBasic.Proofs.Program.Text
import LosslessBasic.Proofs.Relocation
import LosslessBasic.Proofs.Source.Cursor
import LosslessBasic.Proofs.Source.Position
import LosslessBasic.Proofs.Source.Registry
import LosslessBasic.Proofs.Text.Characters
import LosslessBasic.Proofs.Text.CodePoints
import LosslessBasic.Proofs.Text.Languages
import LosslessBasic.Proofs.Text.Windows1252
import LosslessBasic.Proofs.Token.Dump
import LosslessBasic.Proofs.Token.Line
import LosslessBasic.Proofs.Token.Stream
import LosslessBasic.Proofs.Token.View
import LosslessBasic.Proofs.Tree.Access
import LosslessBasic.Proofs.Tree.Builder
import LosslessBasic.Proofs.Tree.Cover
import LosslessBasic.Proofs.Tree.Dump
import LosslessBasic.Proofs.Tree.Ending
import LosslessBasic.Proofs.Tree.Every
import LosslessBasic.Proofs.Tree.Layout
import LosslessBasic.Proofs.Tree.Query
import LosslessBasic.Proofs.Tree.Store
import LosslessBasic.Proofs.Tree.View
import LosslessBasic.Source.Cursor
import LosslessBasic.Source.Folder
import LosslessBasic.Source.Load
import LosslessBasic.Source.Location
import LosslessBasic.Source.PathName
import LosslessBasic.Source.Position
import LosslessBasic.Source.Registry
import LosslessBasic.Text.Ascii
import LosslessBasic.Text.Bytes
import LosslessBasic.Text.Encoding
import LosslessBasic.Text.Utf8
import LosslessBasic.Token
import LosslessBasic.Token.Stream
import LosslessBasic.Trace
import LosslessBasic.Tree.Basic
import LosslessBasic.Tree.Builder
import LosslessBasic.Tree.Dump
import LosslessBasic.Tree.Path
import LosslessBasic.Tree.Query
import LosslessBasic.Tree.Store
