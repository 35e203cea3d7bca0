import EvmCore.Code
import EvmCore.Memory
import EvmCore.Opcode
import EvmCore.Outcome
import EvmCore.Stack

/-!
# Frames

A frame is one activation of some code: the message it was started with, which never changes, and
its own gas, program counter, stack and memory. A frame that calls or creates a contract waits,
holding its request, until it is given the outcome.
-/

namespace EvmCore

/-- What a frame is started with. -/
structure Message where
  /-- The account whose storage and balance are used. -/
  self : Address
  caller : Address
  /-- The account that the code was taken from. -/
  codeAddress : Address
  code : Code
  input : ByteArray := .empty
  value : Int := 0
  /-- Whether all changes to accounts are forbidden. -/
  readOnly : Bool := false
  /-- Whether the output is the code of a new contract. -/
  isInit : Bool := false
  /-- The number of frames below this one. -/
  depth : Int := 0

/-- A request to call a contract. -/
structure CallRequest where
  kind : CallKind
  caller : Address
  /-- The account whose storage and balance are used. -/
  address : Address
  codeAddress : Address
  value : Int
  /-- The gas for the callee, already taken from the caller. -/
  gas : Int
  readOnly : Bool
  transfersValue : Bool
  inputOffset : Int
  inputSize : Int
  returnOffset : Int
  returnSize : Int
  deriving DecidableEq

/-- A request to create a contract. -/
structure CreateRequest where
  value : Int
  inputOffset : Int
  inputSize : Int
  /-- The salt, if the address is to depend on one. -/
  salt : Option Word := none
  deriving DecidableEq

/-- Whether the address of the new contract depends on a salt. -/
def CreateRequest.kind (r : CreateRequest) : CreateKind :=
  if r.salt.isSome then .create2 else .create

/-- What a frame is about. -/
inductive Mode where
  | running
  /-- Waits for a call. A frame handed in from outside may lack the request. -/
  | awaitingCall (request : Option CallRequest)
  /-- Waits for a creation. A frame handed in from outside may lack the request. -/
  | awaitingCreate (request : Option CreateRequest)
  | exited (exit : Exit)
  deriving DecidableEq

namespace Mode

/-- The name of a mode. -/
def name : Mode → String
  | .running => "Running"
  | .awaitingCall _ => "CallSetup"
  | .awaitingCreate _ => "CreateSetup"
  | .exited exit => exit.name

/-- A mode of each name; those that wait hold no request. -/
def samples : List Mode :=
  [.running, .awaitingCall none, .awaitingCreate none, .exited .halted, .exited .reverted] ++
    Failure.all.map fun failure => .exited (.failed failure)

/-- The mode of a name. -/
def ofName? (name : String) : Option Mode := samples.find? fun mode => mode.name == name

/-- The number of a mode. -/
def number : Mode → Nat
  | .running => 0x11
  | .awaitingCall _ => 0x30
  | .awaitingCreate _ => 0x34
  | .exited exit => exit.number

/-- Whether a mode is that of a frame that failed. -/
def isFailure : Mode → Bool
  | .exited (.failed _) => true
  | _ => false

end Mode

/-- One activation of some code. -/
structure Frame where
  message : Message
  gas : Int
  pc : Int := 0
  stack : Stack := []
  memory : Memory := .empty
  /-- The words of memory that were paid for. -/
  activeWords : Nat := 0
  /-- The memory size that the current instruction asks for. -/
  memoryDesired : Int := 0
  /-- The output of the last call or creation. -/
  returnData : ByteArray := .empty
  /-- The output of this frame. -/
  output : ByteArray := .empty
  mode : Mode := .running

/-- The frame after paying for something; nothing if it has less gas than that. -/
def Frame.useGas? (f : Frame) (gas : Int) : Option Frame :=
  if f.gas < gas then none else some { f with gas := f.gas - gas }

end EvmCore
