import PageLoom.Main
import PageLoom.Proofs.Tree.Copy
import PageLoom.Proofs.Tree.Address
import PageLoom.Proofs.Disk.Growth
import PageLoom.Proofs.Tree.Files
import PageLoom.Proofs.Tree.History
import PageLoom.Proofs.Tree.Relative
import PageLoom.Proofs.Tree.Links
import PageLoom.Proofs.Call.Complete
import PageLoom.Proofs.Call.Language
import PageLoom.Proofs.Span.Lossless
import PageLoom.Proofs.Text.Pattern
import PageLoom.Proofs.Span.Scan
import PageLoom.Proofs.Call.Lexing
import PageLoom.Proofs.Call.Prefix
import PageLoom.Proofs.Span.Truncated
import PageLoom.Proofs.Markup.Reference
import PageLoom.Proofs.Markup.Expansion
import PageLoom.Proofs.Disk.Files
import PageLoom.Proofs.Tree.Below
import PageLoom.Proofs.Tree.Taking
import PageLoom.Proofs.Tree.Written
import PageLoom.Proofs.Tree.Finding
import PageLoom.Proofs.Disk.Outside
import PageLoom.Proofs.Disk.Copying
import PageLoom.Proofs.Disk.Proper
import PageLoom.Proofs.Site.Built
import PageLoom.Proofs.Site.Intact
import PageLoom.Proofs.Call.Spelling
import PageLoom.Proofs.Call.Partition
import PageLoom.Proofs.Call.Writing
import PageLoom.Proofs.Call.Completion
import PageLoom.Proofs.Call.Blame
import PageLoom.Proofs.Call.Mentions
import PageLoom.Proofs.Call.Evaluation
import PageLoom.Proofs.Call.Scope
import PageLoom.Proofs.Markup.Head
import PageLoom.Proofs.Site.Agree
import PageLoom.Proofs.Tree.Attaching
import PageLoom.Proofs.Tree.Isolation
import PageLoom.Proofs.Tree.Duplicate
import PageLoom.Proofs.Tree.Order
import PageLoom.Proofs.Tree.Stopping
import PageLoom.Proofs.Tree.Embedding
import PageLoom.Proofs.Tree.Failing
import PageLoom.Proofs.Markup.Substitution
import PageLoom.Proofs.Markup.Passes
import PageLoom.Proofs.Value.Dictionary
import PageLoom.Proofs.Markup.Preformatted
import PageLoom.Proofs.Markup.Indentation
import PageLoom.Proofs.Markup.Nesting
import PageLoom.Proofs.Json.Document
import PageLoom.Proofs.Value.Conversion
import PageLoom.Proofs.Markup.Reading
import PageLoom.Proofs.Markup.Element
import PageLoom.Proofs.Markup.Blocks
import PageLoom.Proofs.Outcomes
import PageLoom.Proofs.Call.Arguments
import PageLoom.Proofs.Function.Grid
import PageLoom.Proofs.Decimal.Nearest
import PageLoom.Proofs.Decimal.Shortest
import PageLoom.Proofs.Decimal.Integers
import PageLoom.Proofs.Json.Number
import PageLoom.Proofs.Json.Strings
import PageLoom.Proofs.Json.RoundTrip
import PageLoom.Proofs.Function.Chart
import PageLoom.Proofs.Markup.Hoisting
import PageLoom.Proofs.NameMap
import PageLoom.Proofs.Function.Layers
import PageLoom.Proofs.Text.Utf8
import PageLoom.Proofs.Text.Truncation
