import IntegerMachine.Word
import IntegerMachine.Numeral
import IntegerMachine.Addressing
import IntegerMachine.Opcode
import IntegerMachine.Fault
import IntegerMachine.Memory
import IntegerMachine.Instruction
import IntegerMachine.Encoding
import IntegerMachine.ProgramText
import IntegerMachine.Listing
import IntegerMachine.Duration
import IntegerMachine.Table
import IntegerMachine.RunState
import IntegerMachine.Config
import IntegerMachine.Failure
import IntegerMachine.Event
import IntegerMachine.Channel
import IntegerMachine.Effect
import IntegerMachine.Machine
import IntegerMachine.Machine.Cycle
import IntegerMachine.Machine.Lifecycle
import IntegerMachine.Machine.Display
import IntegerMachine.Lockstep
import IntegerMachine.Pipeline
import IntegerMachine.Text.Blank
import IntegerMachine.Console
import IntegerMachine.Wait
import IntegerMachine.Worker
import IntegerMachine.Network.Forwarder
import IntegerMachine.Network
import IntegerMachine.Network.Router
import IntegerMachine.Network.Simulation
import IntegerMachine.CommandLine.Options
import IntegerMachine.CommandLine
import IntegerMachine.Main
import IntegerMachine.Proofs.Cycle
import IntegerMachine.Proofs.Frame
import IntegerMachine.Proofs.Execution
import IntegerMachine.Proofs.Suspension
import IntegerMachine.Proofs.Lifecycle
import IntegerMachine.Proofs.Dataflow
import IntegerMachine.Proofs.Arrangement
import IntegerMachine.Proofs.Stepping
import IntegerMachine.Proofs.Interleaving
import IntegerMachine.Proofs.Bounds
import IntegerMachine.Proofs.Quiescence
import IntegerMachine.Proofs.Encoding
import IntegerMachine.Proofs.ProgramText
import IntegerMachine.Proofs.Pipeline
import IntegerMachine.Proofs.Console
import IntegerMachine.Proofs.Piping
import IntegerMachine.Proofs.Journal
import IntegerMachine.Proofs.Growth
import IntegerMachine.Proofs.Registers
import IntegerMachine.Proofs.Determinacy
import IntegerMachine.Proofs.Strand
import IntegerMachine.Proofs.Framing
import IntegerMachine.Proofs.Errands
import IntegerMachine.Proofs.Traffic
import IntegerMachine.Proofs.Thread
import IntegerMachine.Proofs.Arbitration
import IntegerMachine.Proofs.Handover
import IntegerMachine.Proofs.Transcript
import IntegerMachine.Proofs.Printing
import IntegerMachine.Proofs.Conservation
import IntegerMachine.Proofs.Padding
import IntegerMachine.Proofs.Modes
import IntegerMachine.Proofs.Ledger
import IntegerMachine.Proofs.Receipts
import IntegerMachine.Proofs.Closing
import IntegerMachine.Proofs.Idleness
import IntegerMachine.Proofs.Accesses
import IntegerMachine.Proofs.Faults
import IntegerMachine.Proofs.DefaultInput
import IntegerMachine.Proofs.Limits
import IntegerMachine.Proofs.Listing
import IntegerMachine.Proofs.Dump
import IntegerMachine.Proofs.Malformed
import IntegerMachine.Proofs.Rereading
import IntegerMachine.Proofs.BadLines
