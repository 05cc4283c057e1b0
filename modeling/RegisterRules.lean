import RegisterRules.Cell
import RegisterRules.Command
import RegisterRules.Compile
import RegisterRules.Diagnostic
import RegisterRules.Document.Diagnostic
import RegisterRules.Document.Phrase
import RegisterRules.Document.Rule
import RegisterRules.Document.Table
import RegisterRules.Document.Token
import RegisterRules.Document.Value
import RegisterRules.Json.Basic
import RegisterRules.Json.Printer
import RegisterRules.Json.Reader
import RegisterRules.Main
import RegisterRules.Number.Binary64
import RegisterRules.Number.Decimal
import RegisterRules.Number.Layout
import RegisterRules.Number.Shortest
import RegisterRules.Phrase
import RegisterRules.Phrase.Parser
import RegisterRules.Procedure.Access
import RegisterRules.Procedure.Expr
import RegisterRules.Procedure.OfPhrase
import RegisterRules.Procedure.OfRule
import RegisterRules.Procedure.Stmt
import RegisterRules.Rule
import RegisterRules.Table
import RegisterRules.Text.Alphabetic
import RegisterRules.Text.Blank
import RegisterRules.Text.Cyrillic
import RegisterRules.Text.Digits
import RegisterRules.Text.Numeric
import RegisterRules.Text.Ranges
import RegisterRules.Text.Utf8
import RegisterRules.Token
import RegisterRules.Token.Scanner
import RegisterRules.Trace
import RegisterRules.Value
import RegisterRules.Proofs.Grammar
import RegisterRules.Proofs.Recognition
import RegisterRules.Proofs.Flattening
import RegisterRules.Proofs.Precedence
import RegisterRules.Proofs.Execution
import RegisterRules.Proofs.Satisfaction
import RegisterRules.Proofs.Spans
import RegisterRules.Proofs.Lookahead
import RegisterRules.Proofs.Misfit
import RegisterRules.Proofs.WholeNumber
import RegisterRules.Proofs.NumberText
import RegisterRules.Proofs.TextLiteral
import RegisterRules.Proofs.Lexemes
import RegisterRules.Proofs.Readability
import RegisterRules.Proofs.Relexing
import RegisterRules.Proofs.Provenance
import RegisterRules.Proofs.Summary
import RegisterRules.Proofs.Outcome
import RegisterRules.Proofs.Faithful
import RegisterRules.Proofs.Placeless
import RegisterRules.Proofs.Layout
import RegisterRules.Proofs.JsonNumber
import RegisterRules.Proofs.JsonText
import RegisterRules.Proofs.Documents
import RegisterRules.Proofs.Journal
import RegisterRules.Proofs.BookHistory
import RegisterRules.Proofs.BareComparison
import RegisterRules.Proofs.Places
import RegisterRules.Proofs.ReadColumns
import RegisterRules.Proofs.Address
import RegisterRules.Proofs.Readers
import RegisterRules.Proofs.Concatenation
import RegisterRules.Proofs.Outline
import RegisterRules.Proofs.AmountText
import RegisterRules.Proofs.Refusal
import RegisterRules.Proofs.LimitedJournal
import RegisterRules.Proofs.CommandReport
import RegisterRules.Proofs.CommandLine
