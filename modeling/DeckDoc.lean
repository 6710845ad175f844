import DeckDoc.Main
import DeckDoc.Proofs.Document.Faithful
import DeckDoc.Proofs.Keyword.Positional
import DeckDoc.Proofs.Keyword.RoundTrip
import DeckDoc.Proofs.Document.Headings
import DeckDoc.Proofs.FileTree
import DeckDoc.Proofs.Run
import DeckDoc.Proofs.Json.Order
import DeckDoc.Proofs.Keyword.Order
import DeckDoc.Proofs.Decimal.Double
import DeckDoc.Proofs.Keyword.Equal
import DeckDoc.Proofs.FileTree.Frame
import DeckDoc.Proofs.Jobs
import DeckDoc.Proofs.CommandLine.Arguments
import DeckDoc.Proofs.CommandLine
import DeckDoc.Proofs.Log
import DeckDoc.Proofs.Json.Position
import DeckDoc.Proofs.Json.Places.Lexeme
import DeckDoc.Proofs.Json.Places.Reader
import DeckDoc.Proofs.Refusals
import DeckDoc.Proofs.Document.Table
import DeckDoc.Proofs.Literal
import DeckDoc.Proofs.Json.Root
import DeckDoc.Proofs.Keyword.Reference
import DeckDoc.Proofs.Keyword.Unknown
import DeckDoc.Proofs.Keyword.Presence
import DeckDoc.Proofs.Document.Joined
import DeckDoc.Proofs.Literal.Spelling
import DeckDoc.Proofs.Document.Placeholders
import DeckDoc.Proofs.Literal.Made
import DeckDoc.Proofs.Config
import DeckDoc.Proofs.Run.Events
