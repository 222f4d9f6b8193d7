import Prototalk.Command
import Prototalk.Evaluation.EvalError
import Prototalk.Evaluation.Machine
import Prototalk.Evaluation.Operation
import Prototalk.Evaluation.Program
import Prototalk.Evaluation.Step
import Prototalk.Folder
import Prototalk.Host
import Prototalk.Host.Request
import Prototalk.Host.View
import Prototalk.Image
import Prototalk.Image.Display
import Prototalk.Image.Genesis
import Prototalk.Main
import Prototalk.Message
import Prototalk.Message.Listing
import Prototalk.Message.Literal
import Prototalk.Message.ParseError
import Prototalk.Message.Parser
import Prototalk.Message.Printer
import Prototalk.Message.Site
import Prototalk.Name
import Prototalk.Name.Interner
import Prototalk.Name.Sharing
import Prototalk.Number.Binary64
import Prototalk.Number.Decimal
import Prototalk.Number.Radix
import Prototalk.Number.Shortest
import Prototalk.Object
import Prototalk.Object.Collection
import Prototalk.Object.Heap
import Prototalk.Object.Lookup
import Prototalk.Object.Native
import Prototalk.Output
import Prototalk.Source
import Prototalk.Source.Stream
import Prototalk.Span
import Prototalk.Text.Quoted
import Prototalk.Text.Unprintable
import Prototalk.Text.Visible
import Prototalk.Token
import Prototalk.Token.CharClass
import Prototalk.Token.Cursor
import Prototalk.Token.Handoff
import Prototalk.Token.Lexer
import Prototalk.Token.Scan
import Prototalk.Proofs.Evaluation.Depth
import Prototalk.Proofs.Evaluation.Ending
import Prototalk.Proofs.Evaluation.Endless
import Prototalk.Proofs.Evaluation.Formatting
import Prototalk.Proofs.Evaluation.Legible
import Prototalk.Proofs.Evaluation.Limit
import Prototalk.Proofs.Evaluation.Literal
import Prototalk.Proofs.Evaluation.Location
import Prototalk.Proofs.Evaluation.Operation
import Prototalk.Proofs.Evaluation.Persistence
import Prototalk.Proofs.Evaluation.Program
import Prototalk.Proofs.Evaluation.Propagation
import Prototalk.Proofs.Evaluation.Rejection
import Prototalk.Proofs.Evaluation.Step
import Prototalk.Proofs.Evaluation.Translation
import Prototalk.Proofs.Evaluation.Unplaced
import Prototalk.Proofs.Evaluation.Upshot
import Prototalk.Proofs.Evaluation.Weight
import Prototalk.Proofs.Host.Depth
import Prototalk.Proofs.Host.Legible
import Prototalk.Proofs.Host.Literal
import Prototalk.Proofs.Host.Persistence
import Prototalk.Proofs.Host.Session
import Prototalk.Proofs.Host.Translation
import Prototalk.Proofs.Host.Update
import Prototalk.Proofs.Image.Alike
import Prototalk.Proofs.Image.BlockText
import Prototalk.Proofs.Image.Effect
import Prototalk.Proofs.Image.Genesis
import Prototalk.Proofs.Image.Legible
import Prototalk.Proofs.Image.Literal
import Prototalk.Proofs.Image.Persistence
import Prototalk.Proofs.Image.Translation
import Prototalk.Proofs.Image.Unplaced
import Prototalk.Proofs.Message.Decoding
import Prototalk.Proofs.Message.Excerpt
import Prototalk.Proofs.Message.Extent
import Prototalk.Proofs.Message.Grammar
import Prototalk.Proofs.Message.Hexadecimal
import Prototalk.Proofs.Message.Listing
import Prototalk.Proofs.Message.Nesting
import Prototalk.Proofs.Message.Parser
import Prototalk.Proofs.Message.Pipeline
import Prototalk.Proofs.Message.Printer
import Prototalk.Proofs.Message.Reading
import Prototalk.Proofs.Message.Rereading
import Prototalk.Proofs.Message.Respelling
import Prototalk.Proofs.Message.RoundTrip
import Prototalk.Proofs.Message.Spelling
import Prototalk.Proofs.Message.Translation
import Prototalk.Proofs.Message.Unplaced
import Prototalk.Proofs.Message.WellFormed
import Prototalk.Proofs.Name.Dictionary
import Prototalk.Proofs.Name.Interner
import Prototalk.Proofs.Name.Sharing
import Prototalk.Proofs.Number.Binary64
import Prototalk.Proofs.Number.Decimal
import Prototalk.Proofs.Number.Rounding
import Prototalk.Proofs.Object.Collection
import Prototalk.Proofs.Object.Delegation
import Prototalk.Proofs.Object.Heap
import Prototalk.Proofs.Object.Inheritance
import Prototalk.Proofs.Object.Marking
import Prototalk.Proofs.Object.Reference
import Prototalk.Proofs.Object.Release
import Prototalk.Proofs.Object.Translation
import Prototalk.Proofs.Source.Stream
import Prototalk.Proofs.Source.Utf8
import Prototalk.Proofs.Text.Escape
import Prototalk.Proofs.Text.Paired
import Prototalk.Proofs.Text.Quoted
import Prototalk.Proofs.Token.Conformity
import Prototalk.Proofs.Token.Cursor
import Prototalk.Proofs.Token.Cut
import Prototalk.Proofs.Token.Excerpt
import Prototalk.Proofs.Token.Handoff
import Prototalk.Proofs.Token.Interruption
import Prototalk.Proofs.Token.Layout
import Prototalk.Proofs.Token.Laziness
import Prototalk.Proofs.Token.Lexeme
import Prototalk.Proofs.Token.Lexicon
import Prototalk.Proofs.Token.Lexing
import Prototalk.Proofs.Token.Locality
import Prototalk.Proofs.Token.Position
import Prototalk.Proofs.Token.Requests
import Prototalk.Proofs.Token.Stop
import Prototalk.Proofs.Token.Streaming
import Prototalk.Proofs.Token.Tiling
