import Highlight.Text.Range
import Highlight.Text.Cursor
import Highlight.Text.Quoted
import Highlight.Unicode.Folding
import Highlight.Regex.Matching
import Highlight.Regex.Bracket
import Highlight.Regex.Quantifier
import Highlight.Regex.Reading
import Highlight.Grammar.Basic
import Highlight.Tree.Leaves
import Highlight.Tree.Visit
import Highlight.Scan.Tokenize
import Highlight.Compose.Insert
import Highlight.Compose.Derive
import Highlight.Compose.InPlace
import Highlight.Registry.Run
import Highlight.Languages.Bundle
import Highlight.Grammar.Summary
import Highlight.Proofs.Text.Order
import Highlight.Proofs.Regex.Progress
import Highlight.Proofs.Regex.Search
import Highlight.Proofs.Scan.Lossless
import Highlight.Proofs.Scan.Refinement
import Highlight.Proofs.Registry.History
import Highlight.Proofs.Registry.WellFormed
import Highlight.Proofs.Scan.Origin
import Highlight.Proofs.Scan.Termination
import Highlight.Proofs.Registry.Calls
import Highlight.Proofs.Registry.Reporting
import Highlight.Proofs.Registry.Turns
import Highlight.Proofs.Registry.AtHand
import Highlight.Proofs.Registry.Once
import Highlight.Proofs.Scan.Outside
import Highlight.Proofs.Scan.Priority
import Highlight.Proofs.Scan.Silence
import Highlight.Proofs.Regex.Ways
import Highlight.Proofs.Regex.Captures
import Highlight.Proofs.Unicode.Caseless
import Highlight.Proofs.Scan.Pieces
import Highlight.Proofs.Scan.Opening
import Highlight.Proofs.Scan.Lead
import Highlight.Proofs.Scan.Gaps
import Highlight.Proofs.Scan.Shape
import Highlight.Proofs.Languages.Json.Document
import Highlight.Proofs.Languages.Json.Lexemes
import Highlight.Proofs.Languages.Json.Lexing
import Highlight.Proofs.Languages.CLike.Lexemes
import Highlight.Proofs.Languages.CLike.Strings
import Highlight.Proofs.Languages.CLike.LineComments
import Highlight.Proofs.Compose.Derivation
import Highlight.Proofs.Compose.Insertion
import Highlight.Proofs.Compose.Locality
import Highlight.Proofs.Scan.Searches
import Highlight.Proofs.Scan.Placement
import Highlight.Proofs.Registry.Resolution
import Highlight.Proofs.Registry.ReadOnly
import Highlight.Proofs.Registry.Ledger
import Highlight.Proofs.Tree.Traversal
import Highlight.Proofs.Languages.Brainfuck
import Highlight.Proofs.Languages.BuildDialect
