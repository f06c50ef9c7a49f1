import HclEditor.Main
import HclEditor.Proofs.Outcome
import HclEditor.Proofs.Lexeme.Heredoc
import HclEditor.Proofs.Lexeme.Interpolation
import HclEditor.Proofs.Lexeme.Locality
import HclEditor.Proofs.Token.Reading
import HclEditor.Proofs.Token.Piece
import HclEditor.Proofs.Token.Stream
import HclEditor.Proofs.Layout.Runs
import HclEditor.Proofs.Layout.Pieces
import HclEditor.Proofs.Layout.Alignment
import HclEditor.Proofs.Document.Parts
import HclEditor.Proofs.Layout.Separation
import HclEditor.Proofs.Document.ReadBack
import HclEditor.Proofs.Layout.Stable
import HclEditor.Proofs.Assembly.Reader
import HclEditor.Proofs.Assembly.Rereading
import HclEditor.Proofs.Assembly.Step
import HclEditor.Proofs.Assembly.Soundness
import HclEditor.Proofs.Document.RoundTrip
import HclEditor.Proofs.Layout.OpenHeredoc
import HclEditor.Proofs.Assembly.Acceptance
import HclEditor.Proofs.Assembly.Grammar
import HclEditor.Proofs.Assembly.Prediction
import HclEditor.Proofs.Assembly.Transcript
import HclEditor.Proofs.Query.Embedding
import HclEditor.Proofs.Query.Reading
import HclEditor.Proofs.Document.Node
import HclEditor.Proofs.Query.Counting
import HclEditor.Proofs.Query.Replacement
import HclEditor.Proofs.Query.Lens
import HclEditor.Proofs.Query.Tokens
import HclEditor.Proofs.Query.Syntax
import HclEditor.Proofs.Document.Editing
import HclEditor.Proofs.Storage.Utf8
import HclEditor.Proofs.Storage.Gzip
import HclEditor.Proofs.Storage.FilePath
import HclEditor.Proofs.Storage.FileSystem
import HclEditor.Proofs.Storage.Contents
import HclEditor.Proofs.Storage.Saving
import HclEditor.Proofs.Query.ReadBack
import HclEditor.Proofs.Storage.Reloading
import HclEditor.Proofs.Layout.Replacement
import HclEditor.Proofs.Query.Independence
import HclEditor.Proofs.Command.Running
import HclEditor.Proofs.Query.Failure
import HclEditor.Proofs.Number.Integer
import HclEditor.Proofs.Token.Number
import HclEditor.Proofs.Literal.Coercion
import HclEditor.Proofs.Literal.Numeral
import HclEditor.Proofs.Literal.Escape
import HclEditor.Proofs.Number.Decimal
import HclEditor.Proofs.Document.Setting
import HclEditor.Proofs.Literal.HeredocLines
import HclEditor.Proofs.Query.Prefixes
import HclEditor.Proofs.Token.Tiling
import HclEditor.Proofs.Assembly.Derivation
import HclEditor.Proofs.Document.Extent
import HclEditor.Proofs.Lexeme.Cut
import HclEditor.Proofs.Token.Slice
import HclEditor.Proofs.Assembly.Shift
import HclEditor.Proofs.Document.Span
import HclEditor.Proofs.Query.Tiling
