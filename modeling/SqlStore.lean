import SqlStore.Database.Invariant
import SqlStore.Log
import SqlStore.Main
import SqlStore.Parser.Lemmas
import SqlStore.Statement.Grammar
import SqlStore.Statement.WellFormed
import SqlStore.Token.Layout
import SqlStore.Proofs.Parser.Condition
import SqlStore.Proofs.Parser.Column
import SqlStore.Proofs.Parser.Statement
import SqlStore.Proofs.Token.Lossless
import SqlStore.Proofs.Text.Words
import SqlStore.Proofs.Token.Recognizers
import SqlStore.Proofs.Token.Priority
import SqlStore.Proofs.Token.Scanned
import SqlStore.Proofs.Token.Recognized
import SqlStore.Proofs.Token.Joined
import SqlStore.Proofs.Parser.Script
import SqlStore.Proofs.Query.WellFormed
import SqlStore.Proofs.Query.Spelling
import SqlStore.Proofs.Query.RoundTrip
import SqlStore.Proofs.Parser.Pairing
import SqlStore.Proofs.Parser.Paired
import SqlStore.Proofs.Token.Composition
import SqlStore.Proofs.Parser.Composition
import SqlStore.Proofs.Query.Composition
import SqlStore.Proofs.Text.ByteOrder
import SqlStore.Proofs.Database.Execute
import SqlStore.Proofs.Database.Soundness
import SqlStore.Proofs.Database.RowCount
import SqlStore.Proofs.Database.Run
import SqlStore.Proofs.Database.Contents
import SqlStore.Proofs.Parser.Trace
import SqlStore.Proofs.Parser.Cursor
import SqlStore.Proofs.Parser.Blame
import SqlStore.Proofs.Parser.Cause
import SqlStore.Proofs.Parser.Trailing
import SqlStore.Proofs.Parser.SingleStatement
import SqlStore.Proofs.CommandLine.Session
import SqlStore.Proofs.Database.Refusal
import SqlStore.Proofs.Database.Atomicity
import SqlStore.Proofs.CommandLine.Transcript
import SqlStore.Proofs.Parser.Alike
import SqlStore.Proofs.Query.Alike
import SqlStore.Proofs.Database.Cells
import SqlStore.Proofs.CommandLine.Caret
import SqlStore.Proofs.Parser.Locality
import SqlStore.Proofs.Parser.Standing
import SqlStore.Proofs.Parser.Lookahead
import SqlStore.Proofs.Parser.Admission
import SqlStore.Proofs.Parser.Extension
import SqlStore.Proofs.Parser.Viable
import SqlStore.Proofs.Parser.Precedence
import SqlStore.Proofs.Parser.Reach
import SqlStore.Proofs.Parser.Sizes
import SqlStore.Proofs.Query.Sizes
import SqlStore.Proofs.Database.Independence
import SqlStore.Proofs.Token.Ordering
import SqlStore.Proofs.Parser.Repeated
import SqlStore.Proofs.Token.Keywords
import SqlStore.Proofs.Query.Repeated
import SqlStore.Proofs.Text.Slices
import SqlStore.Proofs.Token.Sliced
import SqlStore.Proofs.Token.Cursor
import SqlStore.Proofs.Token.Cursor
