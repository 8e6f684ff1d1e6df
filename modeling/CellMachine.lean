import CellMachine.Main
import CellMachine.Program.Writer
import CellMachine.Proofs.Number.Word
import CellMachine.Proofs.Number.Equality
import CellMachine.Proofs.Machine.Contract
import CellMachine.Proofs.Machine.Writes
import CellMachine.Proofs.Machine.Decode
import CellMachine.Proofs.Library.Standard
import CellMachine.Proofs.Machine.Step
import CellMachine.Proofs.Machine.Safety
import CellMachine.Proofs.Machine.CallStack
import CellMachine.Proofs.Machine.Frames
import CellMachine.Proofs.Table.Keys
import CellMachine.Proofs.Table.Entries
import CellMachine.Proofs.Table.Map
import CellMachine.Proofs.Machine.Sharing
import CellMachine.Proofs.Machine.FreeCells
import CellMachine.Proofs.Machine.PendingArguments
import CellMachine.Proofs.Machine.StackSize
import CellMachine.Proofs.Machine.Leniency
import CellMachine.Proofs.Machine.Demand
import CellMachine.Proofs.Machine.Atomicity
import CellMachine.Proofs.Machine.Arguments
import CellMachine.Proofs.Machine.Returns
import CellMachine.Proofs.Machine.Addresses
import CellMachine.Proofs.Program.RoundTrip
import CellMachine.Proofs.Program.Grammar
import CellMachine.Proofs.Program.Truncation
import CellMachine.Proofs.Heap.Teardown
import CellMachine.Proofs.Library.Tables
import CellMachine.Proofs.Machine.DataInstructions
import CellMachine.Proofs.Machine.LibraryCalls
import CellMachine.Proofs.Text.Distance
import CellMachine.Proofs.Text.Order
import CellMachine.Proofs.Library.Suggestions
import CellMachine.Proofs.Machine.EqualityJumps
import CellMachine.Proofs.Heap.Display
import CellMachine.Proofs.Program.Progress
import CellMachine.Proofs.Diagnostic.Colours
import CellMachine.Proofs.Diagnostic.JsonText
import CellMachine.Proofs.Library.PrintedNumbers
