import Reckoner.Number.Binary64
import Reckoner.Expression.Parser
import Reckoner.Addon.Workspace
import Reckoner.Addon.Memory
import Reckoner.CommandLine.Highlight
import Reckoner.CommandLine.Shell
import Reckoner.Main
import Reckoner.Proofs.Evaluation.Writes
import Reckoner.Proofs.Evaluation.Agreement
import Reckoner.Proofs.Evaluation.Staging
import Reckoner.Proofs.Expression.Tokens
import Reckoner.Proofs.Expression.Steps
import Reckoner.Proofs.Expression.Nesting
import Reckoner.Proofs.Expression.Sequence
import Reckoner.Proofs.Expression.Layout
import Reckoner.Proofs.Addon.Ownership
import Reckoner.Proofs.Addon.History
import Reckoner.Proofs.Number.Digits
import Reckoner.Proofs.Number.Length
import Reckoner.Proofs.Number.Recovery
import Reckoner.Proofs.Number.FixedText
import Reckoner.Proofs.Document.Tokens
import Reckoner.Proofs.Document.Reading
import Reckoner.Proofs.Document.Tables
import Reckoner.Proofs.Document.Reload
import Reckoner.Proofs.Document.RoundTrip
import Reckoner.Proofs.Expression.Spelling
import Reckoner.Proofs.Expression.Tokenization
import Reckoner.Proofs.Expression.Grammar
import Reckoner.Proofs.Expression.Reading
import Reckoner.Proofs.Expression.Acceptance
import Reckoner.Proofs.Expression.Derivation
import Reckoner.Proofs.Expression.Printing
import Reckoner.Proofs.Addon.Succession
import Reckoner.Proofs.Session.Requests
import Reckoner.Proofs.Number.Exact
import Reckoner.Proofs.Number.Doubles
import Reckoner.Proofs.Expression.Numerals
import Reckoner.Proofs.Evaluation.Exact
import Reckoner.Proofs.Evaluation.Meter
import Reckoner.Proofs.Evaluation.Isolation
import Reckoner.Proofs.Evaluation.Limit
import Reckoner.Proofs.Evaluation.Failures
import Reckoner.Proofs.Session.Diagnostics
import Reckoner.Proofs.Addon.Sources
import Reckoner.Proofs.Addon.Balance
import Reckoner.Proofs.Session.Import
import Reckoner.Proofs.Addon.Concord
import Reckoner.Proofs.Session.Saving
import Reckoner.Proofs.Addon.Directory
import Reckoner.Proofs.Addon.Standing
import Reckoner.Proofs.Session.Runs
import Reckoner.Proofs.Session.Restart
import Reckoner.Proofs.Number.PlainDecimal
import Reckoner.Proofs.Number.Rounding
import Reckoner.Proofs.Number.DecimalText
import Reckoner.Proofs.Number.ExactText
import Reckoner.Proofs.Expression.Names
import Reckoner.Proofs.Session.Names
import Reckoner.Proofs.Number.Magnitude
import Reckoner.Proofs.Number.Constants
import Reckoner.Proofs.Number.Range
import Reckoner.Proofs.Evaluation.Stopping
import Reckoner.Proofs.Evaluation.Range
import Reckoner.Proofs.Number.Unit
import Reckoner.Proofs.Number.Sum
import Reckoner.Proofs.Number.Quotient
import Reckoner.Proofs.Expression.Literals
import Reckoner.Proofs.Number.Accuracy
import Reckoner.Proofs.Number.Rereading
import Reckoner.Proofs.Number.Remainder
import Reckoner.Proofs.Number.Brackets
import Reckoner.Proofs.Number.Hypotenuse
import Reckoner.Proofs.Expression.Signed
import Reckoner.Proofs.Addon.Constants
import Reckoner.Proofs.Expression.Cuts
import Reckoner.Proofs.Expression.Calls
import Reckoner.Proofs.Expression.Spans
import Reckoner.Proofs.Expression.Prefixes
import Reckoner.Proofs.Session.Chains
import Reckoner.Proofs.Number.Nearest
import Reckoner.Proofs.Number.Boundary
import Reckoner.Proofs.CommandLine.Definitions
import Reckoner.Proofs.CommandLine.Highlighting
import Reckoner.Proofs.Files.Spellings
import Reckoner.Proofs.Addon.Discovery
import Reckoner.Proofs.Expression.Descent
import Reckoner.Proofs.Files.Lexical
import Reckoner.Proofs.Files.Inquiry
import Reckoner.Proofs.Addon.Confinement
import Reckoner.Proofs.Number.Neighbours
import Reckoner.Proofs.Evaluation.Integers
