import LispLexer.Text.CharClass
import LispLexer.Text.Position
import LispLexer.Text.Quoted
import LispLexer.Text.Utf8
import LispLexer.Token.Basic
import LispLexer.Token.Tally
import LispLexer.Feed.Error
import LispLexer.Feed.Basic
import LispLexer.Feed.Text
import LispLexer.Feed.Script
import LispLexer.Feed.Bytes
import LispLexer.ReadError
import LispLexer.Failure
import LispLexer.Cursor
import LispLexer.Gap
import LispLexer.Lexeme
import LispLexer.Event
import LispLexer.Lexer.Basic
import LispLexer.Lexer.Run
import LispLexer.Lex
import LispLexer.Session
import LispLexer.Proofs.Ahead
import LispLexer.Proofs.Grammar
import LispLexer.Proofs.Pieces
import LispLexer.Proofs.Scan
import LispLexer.Proofs.Reading
import LispLexer.Proofs.Acceptance
import LispLexer.Proofs.Offsets
import LispLexer.Proofs.Decoding
import LispLexer.Proofs.FailingFeed
import LispLexer.Proofs.Respelling
import LispLexer.Proofs.Lines
import LispLexer.Proofs.Calls
import LispLexer.Proofs.Standing
import LispLexer.Proofs.Accounting
import LispLexer.Proofs.InStep
import LispLexer.Proofs.EncodedText
import LispLexer.Proofs.Lookahead
import LispLexer.Proofs.MoreInput
import LispLexer.Proofs.Driving
import LispLexer.Proofs.Laziness
import LispLexer.Proofs.LifeCycle
import LispLexer.Proofs.Positions
import LispLexer.Proofs.Utf8Prefix
import LispLexer.Proofs.Consumption
import LispLexer.Proofs.Chunking
import LispLexer.Proofs.Completion
import LispLexer.Proofs.Finality
import LispLexer.Proofs.Record
import LispLexer.Proofs.StringEnd
import LispLexer.Proofs.Progress
import LispLexer.Proofs.Writing
import LispLexer.Proofs.Quoting
