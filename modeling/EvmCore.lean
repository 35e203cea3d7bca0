import EvmCore.Account
import EvmCore.Address
import EvmCore.Allocation
import EvmCore.Arithmetic
import EvmCore.Bytes
import EvmCore.Call
import EvmCore.Code
import EvmCore.CommandLine
import EvmCore.Context
import EvmCore.Create
import EvmCore.Decimal
import EvmCore.Event
import EvmCore.Fault
import EvmCore.Frame
import EvmCore.Gas.Dynamic
import EvmCore.Gas.Memory
import EvmCore.Gas.Schedule
import EvmCore.Gas.Storage
import EvmCore.Hex
import EvmCore.Journal
import EvmCore.Json
import EvmCore.Keccak
import EvmCore.Machine
import EvmCore.Main
import EvmCore.Memory
import EvmCore.Opcode
import EvmCore.Operation
import EvmCore.Outcome
import EvmCore.Rlp
import EvmCore.Stack
import EvmCore.State
import EvmCore.Step
import EvmCore.Substate
import EvmCore.Transaction
import EvmCore.Word
import EvmCore.World
import EvmCore.Proofs.Computation
import EvmCore.Proofs.View
import EvmCore.Proofs.Layer
import EvmCore.Proofs.Mirror
import EvmCore.Proofs.Snapshot
import EvmCore.Proofs.Instruction
import EvmCore.Proofs.Phase
import EvmCore.Proofs.Start
import EvmCore.Proofs.Iteration
import EvmCore.Proofs.Nesting
import EvmCore.Proofs.Containment
import EvmCore.Proofs.ReadOnly
import EvmCore.Proofs.Value
import EvmCore.Proofs.Conservation
import EvmCore.Proofs.NonNegative
import EvmCore.Proofs.Charge
import EvmCore.Proofs.Budget
import EvmCore.Proofs.Atomicity
import EvmCore.Proofs.Deployment
import EvmCore.Proofs.Refund
import EvmCore.Proofs.WordRange
import EvmCore.Proofs.Bounded
import EvmCore.Proofs.RegularMachine
import EvmCore.Proofs.Faultless
import EvmCore.Proofs.Progress
import EvmCore.Proofs.Safety
import EvmCore.Proofs.Depth
import EvmCore.Proofs.Recursion
import EvmCore.Proofs.Upholds
import EvmCore.Proofs.Stops
import EvmCore.Proofs.Expense
import EvmCore.Proofs.RefundBound
import EvmCore.Proofs.FailedTransaction
import EvmCore.Proofs.Boundary
import EvmCore.Proofs.Bystander
import EvmCore.Proofs.Replay
import EvmCore.Proofs.Surcharge
import EvmCore.Proofs.Warming
import EvmCore.Proofs.NetMetering
import EvmCore.Proofs.GasBounds
import EvmCore.Proofs.EmptyAccounts
import EvmCore.Proofs.Locality
import EvmCore.Proofs.LazyLoading
import EvmCore.Proofs.Course
import EvmCore.Proofs.CreationOutcome
import EvmCore.Proofs.StackEffect
import EvmCore.Proofs.Arity
import EvmCore.Proofs.MemoryRegion
import EvmCore.Proofs.MemoryCharge
import EvmCore.Proofs.IdealMemory
import EvmCore.Proofs.Disassembly
import EvmCore.Proofs.TwosComplement
import EvmCore.Proofs.Shift
import EvmCore.Proofs.Retry
import EvmCore.Proofs.UndoOrder
import EvmCore.Proofs.Preimage
