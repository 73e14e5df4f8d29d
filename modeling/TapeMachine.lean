import TapeMachine.Alphabet
import TapeMachine.Catalog
import TapeMachine.CommandLine
import TapeMachine.CommandLine.Arguments
import TapeMachine.Error
import TapeMachine.Json
import TapeMachine.Json.Codec
import TapeMachine.Json.Parser
import TapeMachine.KeyedSet
import TapeMachine.Log
import TapeMachine.Machine
import TapeMachine.Machine.Configuration
import TapeMachine.Machine.Execution
import TapeMachine.Main
import TapeMachine.Program
import TapeMachine.Program.Lint
import TapeMachine.Program.Violation
import TapeMachine.Program.WellFormed
import TapeMachine.Proofs.Alphabet.History
import TapeMachine.Proofs.Alphabet.Operations
import TapeMachine.Proofs.Catalog.BinaryPalindrome
import TapeMachine.Proofs.Catalog.EvenZeros
import TapeMachine.Proofs.Catalog.Programs
import TapeMachine.Proofs.Catalog.ZerosThenOnes
import TapeMachine.Proofs.CommandLine.Transcripts
import TapeMachine.Proofs.Json.Reading
import TapeMachine.Proofs.Json.RoundTrip
import TapeMachine.Proofs.Json.Scalars
import TapeMachine.Proofs.Machine.AcceptingStates
import TapeMachine.Proofs.Machine.Alike
import TapeMachine.Proofs.Machine.Confinement
import TapeMachine.Proofs.Machine.HaltRecord
import TapeMachine.Proofs.Machine.Halting
import TapeMachine.Proofs.Machine.Operations
import TapeMachine.Proofs.Machine.Renaming
import TapeMachine.Proofs.Machine.Runs
import TapeMachine.Proofs.Machine.SingleTape
import TapeMachine.Proofs.Machine.Textbook
import TapeMachine.Proofs.Machine.UnreachableStates
import TapeMachine.Proofs.Program.Assembled
import TapeMachine.Proofs.Program.FirstViolation
import TapeMachine.Proofs.Program.History
import TapeMachine.Proofs.Program.Parts
import TapeMachine.Proofs.Program.Reachability
import TapeMachine.Proofs.Program.Rearrangement
import TapeMachine.Proofs.Program.Renaming
import TapeMachine.Proofs.Program.TableOrder
import TapeMachine.Proofs.Program.WellFormed
import TapeMachine.Proofs.Simulator.Budgets
import TapeMachine.Proofs.Simulator.Drivers
import TapeMachine.Proofs.Simulator.Histories
import TapeMachine.Proofs.Simulator.Renaming
import TapeMachine.Proofs.Simulator.Trace
import TapeMachine.Proofs.Specification.Acceptance
import TapeMachine.Proofs.Specification.Assembly
import TapeMachine.Proofs.Specification.Faults
import TapeMachine.Proofs.Specification.Grammar
import TapeMachine.Proofs.Specification.Layout
import TapeMachine.Proofs.Specification.LineNumbers
import TapeMachine.Proofs.Specification.Positions
import TapeMachine.Proofs.Specification.Reading
import TapeMachine.Proofs.Specification.RoundTrip
import TapeMachine.Proofs.Specification.Tokens
import TapeMachine.Proofs.Specification.Writing
import TapeMachine.Proofs.Tape.Canonical
import TapeMachine.Proofs.Tape.Coverage
import TapeMachine.Proofs.Tape.Infinite
import TapeMachine.Proofs.Tape.Rendering
import TapeMachine.Proofs.Tape.Visible
import TapeMachine.Proofs.Text.ByteOrder
import TapeMachine.Proofs.Transition.Insertions
import TapeMachine.Simulator
import TapeMachine.Simulator.Report
import TapeMachine.Specification.Fault
import TapeMachine.Specification.Line
import TapeMachine.Specification.Program
import TapeMachine.State
import TapeMachine.Tape
import TapeMachine.Tape.Snapshot
import TapeMachine.Text.Plain
import TapeMachine.Text.Quoted
import TapeMachine.Text.Unprintable
import TapeMachine.Transition
import TapeMachine.Transition.Table
