import NumericJit.CommandLine
import NumericJit.Config
import NumericJit.Config.Document
import NumericJit.Config.Load
import NumericJit.Decimal.Nearest
import NumericJit.Decimal.Notation
import NumericJit.Decimal.Reading
import NumericJit.Decimal.Shortest
import NumericJit.Engine.Host
import NumericJit.Engine.Interface
import NumericJit.Engine.Resident
import NumericJit.Engine.Scripted
import NumericJit.Expr
import NumericJit.Expr.Text
import NumericJit.Failure
import NumericJit.Failure.Diagnostic
import NumericJit.Failure.Report
import NumericJit.Files
import NumericJit.Files.Tree
import NumericJit.Lowering.Expression
import NumericJit.Lowering.Statement
import NumericJit.Machine
import NumericJit.Main
import NumericJit.Meaning.Calls
import NumericJit.Meaning.Code
import NumericJit.Meaning.Expression
import NumericJit.Meaning.Footprint
import NumericJit.Meaning.Places
import NumericJit.Meaning.Publications
import NumericJit.Meaning.Requirements
import NumericJit.Meaning.Scoping
import NumericJit.Meaning.Session
import NumericJit.NameTable
import NumericJit.Number
import NumericJit.Proofs.Decimal.Nearest
import NumericJit.Proofs.Decimal.Reading
import NumericJit.Proofs.Engine.Growth
import NumericJit.Proofs.Engine.Linked
import NumericJit.Proofs.Engine.Persistence
import NumericJit.Proofs.Engine.Publications
import NumericJit.Proofs.Engine.Safety
import NumericJit.Proofs.Engine.Worlds
import NumericJit.Proofs.Lowering.Callables
import NumericJit.Proofs.Lowering.Code
import NumericJit.Proofs.Lowering.Draft
import NumericJit.Proofs.Lowering.Meaning
import NumericJit.Proofs.Lowering.Outcome
import NumericJit.Proofs.Lowering.Places
import NumericJit.Proofs.Machine
import NumericJit.Proofs.Meaning.Evaluation
import NumericJit.Proofs.Meaning.Scoping
import NumericJit.Proofs.Runs
import NumericJit.Proofs.Session.Arities
import NumericJit.Proofs.Session.Buffer
import NumericJit.Proofs.Session.Coherence
import NumericJit.Proofs.Session.Cutting
import NumericJit.Proofs.Session.Failures
import NumericJit.Proofs.Session.HostCalls
import NumericJit.Proofs.Session.InputLines
import NumericJit.Proofs.Session.LifeCycle
import NumericJit.Proofs.Session.Lines
import NumericJit.Proofs.Session.Matching
import NumericJit.Proofs.Session.Pieces
import NumericJit.Proofs.Session.Rejection
import NumericJit.Proofs.Session.Trees
import NumericJit.Proofs.Session.Worlds
import NumericJit.Proofs.SlotCode.Replay
import NumericJit.Proofs.Statement.Acceptance
import NumericJit.Proofs.Statement.Chains
import NumericJit.Proofs.Statement.Derivations
import NumericJit.Proofs.Statement.Extension
import NumericJit.Proofs.Statement.Grouping
import NumericJit.Proofs.Statement.Independence
import NumericJit.Proofs.Statement.Nesting
import NumericJit.Proofs.Statement.Predictive
import NumericJit.Proofs.Statement.Printing
import NumericJit.Proofs.Statement.Progress
import NumericJit.Proofs.Statement.RoundTrip
import NumericJit.Proofs.Statement.Segments
import NumericJit.Proofs.Statement.Sequence
import NumericJit.Proofs.Statement.Words
import NumericJit.Proofs.Text.Comments
import NumericJit.Proofs.Token.Continuing
import NumericJit.Proofs.Token.Cuts
import NumericJit.Proofs.Token.Lexing
import NumericJit.Proofs.Token.Partition
import NumericJit.Proofs.Wasm.Bounds
import NumericJit.Proofs.Wasm.Encoding
import NumericJit.Proofs.Wasm.Reading
import NumericJit.Proofs.Wasm.Refinement
import NumericJit.Proofs.Wasm.RoundTrip
import NumericJit.Proofs.Wasm.Simulation
import NumericJit.Proofs.Wasm.Sizes
import NumericJit.Proofs.Wasm.Soundness
import NumericJit.Proofs.Wasm.Typing
import NumericJit.Proofs.Wasm.Worlds
import NumericJit.Session.Basic
import NumericJit.Session.Buffer
import NumericJit.Session.Repl
import NumericJit.Session.Workbench
import NumericJit.SlotCode.Basic
import NumericJit.SlotCode.Builder
import NumericJit.SlotCode.CodeUnit
import NumericJit.SlotCode.Exec
import NumericJit.SlotCode.Replay
import NumericJit.SlotCode.Text
import NumericJit.Source.Cursor
import NumericJit.Source.Position
import NumericJit.Statement.Cursor
import NumericJit.Statement.Grammar
import NumericJit.Statement.Grouping
import NumericJit.Statement.Nesting
import NumericJit.Statement.Parse
import NumericJit.Statement.Predictive
import NumericJit.Statement.Writable
import NumericJit.Text.Blank
import NumericJit.Text.Comments
import NumericJit.Text.Hidden
import NumericJit.Text.Lines
import NumericJit.Text.Quoted
import NumericJit.Text.Split
import NumericJit.Text.Style
import NumericJit.Token
import NumericJit.Token.Lexeme
import NumericJit.Token.Scan
import NumericJit.Wasm.Assembly
import NumericJit.Wasm.Bytes
import NumericJit.Wasm.Decode
import NumericJit.Wasm.Encode
import NumericJit.Wasm.Exec
import NumericJit.Wasm.Module
import NumericJit.Wasm.Validity
import NumericJit.World
