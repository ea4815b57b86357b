import HackToolchain.Files.Tree
import HackToolchain.Listing
import HackToolchain.Main
import HackToolchain.Trace
import HackToolchain.Trial
import HackToolchain.Proofs.Assembly.CleanLines
import HackToolchain.Proofs.Assembly.Reading
import HackToolchain.Proofs.Assembly.Passes
import HackToolchain.Proofs.Assembly.Definition
import HackToolchain.Proofs.Assembly.Faults
import HackToolchain.Proofs.Assembly.Renaming
import HackToolchain.Proofs.Machine.Instruction
import HackToolchain.Proofs.Lowering.Blocks
import HackToolchain.Proofs.Lowering.Spelling
import HackToolchain.Proofs.Lowering.ReadBack
import HackToolchain.Proofs.Lowering.Acceptance
import HackToolchain.Proofs.Lowering.SessionLabels
import HackToolchain.Proofs.Machine.Execution
import HackToolchain.Proofs.Machine.Halting
import HackToolchain.Proofs.Lowering.Realization
import HackToolchain.Proofs.Lowering.Calls
import HackToolchain.Proofs.Lowering.BlockAddresses
import HackToolchain.Proofs.Lowering.FrameBlocks
import HackToolchain.Proofs.StackMachine.Frames
import HackToolchain.Proofs.StackMachine.Stack
import HackToolchain.Proofs.StackMachine.Operands
import HackToolchain.Proofs.Lowering.Returns
import HackToolchain.Proofs.StackMachine.Machine
import HackToolchain.Proofs.StackMachine.Scratch
import HackToolchain.Proofs.StackMachine.Separation
import HackToolchain.Proofs.Lowering.Linking
import HackToolchain.Proofs.Lowering.Simulation
import HackToolchain.Proofs.Machine.Step
import HackToolchain.Proofs.Lowering.LabelText
import HackToolchain.Proofs.Lowering.References
import HackToolchain.Proofs.Lowering.Counters
import HackToolchain.Proofs.Lowering.StaticCells
import HackToolchain.Proofs.Lowering.FreeSymbols
import HackToolchain.Proofs.Lowering.StraightAssembly
import HackToolchain.Proofs.Lowering.StaticArea
import HackToolchain.Proofs.Lowering.StraightRuns
import HackToolchain.Proofs.Lowering.Stepwise
import HackToolchain.Proofs.Lowering.OperatorBlocks
import HackToolchain.Proofs.Lowering.AccessBlocks
import HackToolchain.Proofs.Command.Grammar
import HackToolchain.Proofs.Command.RoundTrip
import HackToolchain.Proofs.Text.Numerals
import HackToolchain.Proofs.Assembly.NormalForm
import HackToolchain.Proofs.Lowering.ParsedBlocks
import HackToolchain.Proofs.Lowering.JumpLinks
import HackToolchain.Proofs.Assembly.Bounds
import HackToolchain.Proofs.Machine.Bounds
import HackToolchain.Proofs.Machine.Runs
import HackToolchain.Proofs.Arithmetic
import HackToolchain.Proofs.Lowering.Entries
import HackToolchain.Proofs.Text.ByteOrder
import HackToolchain.Proofs.Text.Pieces
import HackToolchain.Proofs.Files.Writes
import HackToolchain.Proofs.Files.Extensions
import HackToolchain.Proofs.CommandLine.Execution
import HackToolchain.Proofs.CommandLine.Building
import HackToolchain.Proofs.Lowering.Titles
import HackToolchain.Proofs.CommandLine.Failures
import HackToolchain.Proofs.CommandLine.Directories
import HackToolchain.Proofs.Assembly.Literals
import HackToolchain.Proofs.Assembly.SymbolHistory
import HackToolchain.Proofs.Lowering.ArithmeticBlocks
import HackToolchain.Proofs.Lowering.LineViews
