import TaskTree.Text.Blank
import TaskTree.Text.Pieces
import TaskTree.Text.Unprintable
import TaskTree.Decimal.Binary
import TaskTree.Decimal.Numeral
import TaskTree.Decimal.Rounding
import TaskTree.Decimal.Shortest
import TaskTree.Decimal.Style
import TaskTree.Source.Fault
import TaskTree.Source.Forms
import TaskTree.Source.InPlace
import TaskTree.Source.Quoted
import TaskTree.Source.Token
import TaskTree.Value.Basic
import TaskTree.Value.Equality
import TaskTree.Value.Json
import TaskTree.Value.Written
import TaskTree.SpecialForm
import TaskTree.Instant.Basic
import TaskTree.Instant.Parse
import TaskTree.Instant.Written
import TaskTree.Node.Basic
import TaskTree.Node.Equality
import TaskTree.Node.Error
import TaskTree.Node.Json
import TaskTree.Node.OfValue
import TaskTree.Node.ToValue
import TaskTree.LogEntry
import TaskTree.Json.Basic
import TaskTree.Json.Decode
import TaskTree.Json.Fault
import TaskTree.Json.Parse
import TaskTree.Json.Text
import TaskTree.Json.Token
import TaskTree.Json.Written
import TaskTree.Debug.Node
import TaskTree.Debug.Quoted
import TaskTree.Debug.Tree
import TaskTree.Debug.Value
import TaskTree.OutputConfig.Basic
import TaskTree.OutputConfig.Fault
import TaskTree.OutputConfig.Parse
import TaskTree.Files
import TaskTree.Error
import TaskTree.Program
import TaskTree.Render
import TaskTree.CommandLine.Arguments
import TaskTree.CommandLine.Run
import TaskTree.Main
import TaskTree.Proofs.Except
import TaskTree.Proofs.Program
import TaskTree.Proofs.Value.Parts
import TaskTree.Proofs.Source.Lexing
import TaskTree.Proofs.Decimal.Numeral
import TaskTree.Proofs.Decimal.Interval
import TaskTree.Proofs.Decimal.Rounding
import TaskTree.Proofs.Decimal.Bits
import TaskTree.Proofs.Decimal.Conversion
import TaskTree.Proofs.Decimal.ReadBack
import TaskTree.Proofs.Decimal.Nearest
import TaskTree.Proofs.Decimal.NaN
import TaskTree.Proofs.Source.Reading
import TaskTree.Proofs.Source.Forms
import TaskTree.Proofs.Source.Invariant
import TaskTree.Proofs.Value.Readable
import TaskTree.Proofs.Value.Lines
import TaskTree.Proofs.Value.Equality
import TaskTree.Proofs.Node.Denotes
import TaskTree.Proofs.Node.WellFormed
import TaskTree.Proofs.Node.Acceptable
import TaskTree.Proofs.Node.RoundTrip
import TaskTree.Proofs.Node.Expressions
import TaskTree.Proofs.Node.Frame
import TaskTree.Proofs.Node.Equality
import TaskTree.Proofs.Value.Stored
import TaskTree.Proofs.Node.Failure
import TaskTree.Proofs.Node.Outline
import TaskTree.Proofs.Node.Location
import TaskTree.Proofs.Source.Places
import TaskTree.Proofs.Source.Grammar
import TaskTree.Proofs.Source.Faults
import TaskTree.Proofs.Source.Numbers
import TaskTree.Proofs.Source.Concatenation
import TaskTree.Proofs.Json.Text
import TaskTree.Proofs.Json.Number
import TaskTree.Proofs.Json.Reading
import TaskTree.Proofs.Json.Lines
import TaskTree.Proofs.Json.Decoding
import TaskTree.Proofs.Value.Json
import TaskTree.Proofs.Value.Decoded
import TaskTree.Proofs.Node.Json
import TaskTree.Proofs.Instant.ReadBack
import TaskTree.Proofs.Instant.Strict
import TaskTree.Proofs.LogEntry.Meaning
import TaskTree.Proofs.LogEntry.RoundTrip
import TaskTree.Proofs.LogEntry.Log
import TaskTree.Proofs.CommandLine.Report
import TaskTree.Proofs.CommandLine.Agreement
import TaskTree.Proofs.CommandLine.Lines
import TaskTree.Proofs.InPlace.Progress
import TaskTree.Proofs.InPlace.Bytes
import TaskTree.Proofs.InPlace.Atoms
import TaskTree.Proofs.InPlace.Agreement
import TaskTree.Proofs.InPlace.OneForm
import TaskTree.Proofs.InPlace.Safety
