import SqlAssist.Dialect.Builtin
import SqlAssist.Dialect.File
import SqlAssist.Highlight.Theme
import SqlAssist.Marker.Command
import SqlAssist.Session.Command
import SqlAssist.Proofs.Token.Tiling
import SqlAssist.Proofs.Token.Literal
import SqlAssist.Proofs.Assist.Call
import SqlAssist.Proofs.Assist.Hover
import SqlAssist.Proofs.Session.Coherence
import SqlAssist.Proofs.Session.Completion
import SqlAssist.Proofs.Session.History
import SqlAssist.Proofs.Text.Fold
import SqlAssist.Proofs.Token.Fold
import SqlAssist.Proofs.Assist.Fold
import SqlAssist.Proofs.Assist.Marks
import SqlAssist.Proofs.Symbol.Signature
import SqlAssist.Proofs.Assist.Argument
import SqlAssist.Proofs.Marker.Board
import SqlAssist.Proofs.Session.Markers
import SqlAssist.Proofs.Document.Position
import SqlAssist.Proofs.Token.Opener
import SqlAssist.Proofs.Assist.SortKey
import SqlAssist.Proofs.Symbol.Declared
import SqlAssist.Proofs.Highlight.Color
import SqlAssist.Proofs.Highlight.Point
import SqlAssist.Proofs.Token.Resume
import SqlAssist.Proofs.Token.NumberPattern
import SqlAssist.Proofs.Token.Stream
