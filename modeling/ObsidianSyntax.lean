import ObsidianSyntax.CommandLine.Folder
import ObsidianSyntax.CommandLine.Options
import ObsidianSyntax.CommandLine.Run
import ObsidianSyntax.Decimal.Binary64
import ObsidianSyntax.Decimal.Integer
import ObsidianSyntax.Decimal.Power
import ObsidianSyntax.Decimal.Shortest
import ObsidianSyntax.Diagnostic.Basic
import ObsidianSyntax.Diagnostic.Plain
import ObsidianSyntax.Diagnostic.Pretty
import ObsidianSyntax.Main
import ObsidianSyntax.Operator
import ObsidianSyntax.Parse.Cursor
import ObsidianSyntax.Parse.Expression
import ObsidianSyntax.Parse.Fault
import ObsidianSyntax.Parse.Program
import ObsidianSyntax.Parse.Statement
import ObsidianSyntax.Precedence
import ObsidianSyntax.Proofs.Parse.Climbing
import ObsidianSyntax.Proofs.Parse.Combinators
import ObsidianSyntax.Proofs.Parse.Grammar
import ObsidianSyntax.Proofs.Parse.Language
import ObsidianSyntax.Proofs.Parse.Limits
import ObsidianSyntax.Proofs.Parse.Operands
import ObsidianSyntax.Proofs.Parse.Programs
import ObsidianSyntax.Proofs.Parse.Statements
import ObsidianSyntax.Proofs.Print.Derivation
import ObsidianSyntax.Proofs.Print.Literals
import ObsidianSyntax.Proofs.Print.RoundTrip
import ObsidianSyntax.Proofs.Print.Source
import ObsidianSyntax.Proofs.Print.Spacing
import ObsidianSyntax.Proofs.Token.Layout
import ObsidianSyntax.Proofs.Token.LongestMatch
import ObsidianSyntax.Proofs.Token.Spelling
import ObsidianSyntax.Report
import ObsidianSyntax.Source
import ObsidianSyntax.Text.Blank
import ObsidianSyntax.Text.Escape
import ObsidianSyntax.Text.Line
import ObsidianSyntax.Text.Position
import ObsidianSyntax.Text.Quoted
import ObsidianSyntax.Text.Ranges
import ObsidianSyntax.Text.Unprintable
import ObsidianSyntax.Text.Width
import ObsidianSyntax.Token.Basic
import ObsidianSyntax.Token.Kind
import ObsidianSyntax.Token.Lexeme
import ObsidianSyntax.Token.Lexer
import ObsidianSyntax.Tree.Basic
import ObsidianSyntax.Tree.Printer
import ObsidianSyntax.Proofs.Fault.Laws
import ObsidianSyntax.Proofs.Fault.Expressions
import ObsidianSyntax.Proofs.Fault.Statements
import ObsidianSyntax.Proofs.Fault.Earliest
import ObsidianSyntax.Proofs.Place.Exact
import ObsidianSyntax.Proofs.Place.Lines
import ObsidianSyntax.Proofs.Place.PlainForm
import ObsidianSyntax.Proofs.Place.PrettyForm
import ObsidianSyntax.Proofs.Token.Stream
import ObsidianSyntax.Proofs.Token.LineLocal
import ObsidianSyntax.Proofs.Parse.Alike
import ObsidianSyntax.Proofs.Source.SameTokens
import ObsidianSyntax.Proofs.Source.Concat
import ObsidianSyntax.Proofs.Tree.WellFormed
import ObsidianSyntax.Proofs.Tree.Parsed
import ObsidianSyntax.Proofs.Source.Strict
import ObsidianSyntax.Proofs.Depth.Plan
import ObsidianSyntax.Proofs.Depth.Planned
import ObsidianSyntax.Proofs.Depth.Machine
import ObsidianSyntax.Proofs.Depth.Kept
import ObsidianSyntax.Proofs.Depth.Refusal
import ObsidianSyntax.Proofs.Tree.Height
import ObsidianSyntax.Proofs.Source.Calls
import ObsidianSyntax.Proofs.CommandLine.Modes
import ObsidianSyntax.Proofs.Parse.Chains
import ObsidianSyntax.Proofs.Print.Escapes
import ObsidianSyntax.Proofs.Source.OnePerLine
import ObsidianSyntax.Proofs.Token.BodyItems
import ObsidianSyntax.Proofs.Fault.Placed
import ObsidianSyntax.Proofs.Fault.Stopping
import ObsidianSyntax.Proofs.Fault.Hints
import ObsidianSyntax.Proofs.Parse.CutShort
import ObsidianSyntax.Proofs.Source.Listing
import ObsidianSyntax.Proofs.Place.Slices
import ObsidianSyntax.Proofs.Print.Words
import ObsidianSyntax.Proofs.Print.Decimals
import ObsidianSyntax.Proofs.Print.OneLine
import ObsidianSyntax.Proofs.Print.NodeLine
import ObsidianSyntax.Proofs.Print.Lines
import ObsidianSyntax.Proofs.Print.Dump
import ObsidianSyntax.Proofs.Print.Indentation
import ObsidianSyntax.Proofs.Parse.Same
import ObsidianSyntax.Proofs.Parse.Stages
import ObsidianSyntax.Proofs.Parse.Lookahead
import ObsidianSyntax.Proofs.Tree.Parts
import ObsidianSyntax.Proofs.Tree.Size
import ObsidianSyntax.Proofs.Fault.Fallbacks
