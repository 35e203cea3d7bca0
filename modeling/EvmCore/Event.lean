import EvmCore.Opcode
import EvmCore.Outcome

/-!
# Events

What an execution reports on the way: a line for each call, creation, exit and settlement, and, if
asked for, a record of each step.
-/

namespace EvmCore

/-- A reported event. -/
inductive Event where
  | callTooDeep (callee : Address) (depth : Int)
  | callUnfunded (callee : Address) (value : Int)
  | callEntered (depth : Int) (callee code : Address) (gas : Int)
  | createCollided (address : Address)
  | createEntered (depth : Int) (address : Address) (gas : Int)
  | frameHalted (depth : Int) (gas : Int)
  | frameReverted (depth : Int) (gas : Int)
  | frameFailed (depth : Int) (failure : Failure)
  | flushed (count : Nat)
  | applied (sender : Address) (nonce : Int) (status : Status) (gasUsed refund : Int)
  deriving DecidableEq

namespace Event

/-- The line that reports an event: its level, where it arose, and the text. -/
def line : Event → String
  | .callTooDeep callee depth =>
    s!"DEBUG fovea.call_work: call to {callee.hex} failed: depth {depth}"
  | .callUnfunded callee value =>
    s!"DEBUG fovea.call_work: call to {callee.hex} failed: insufficient balance for value {value}"
  | .callEntered depth callee code gas =>
    s!"DEBUG fovea.call_work: enter call frame: depth {depth}, to {callee.hex}, " ++
      s!"code {code.hex}, gas {gas}"
  | .createCollided address =>
    s!"DEBUG fovea.create_work: create at {address.hex} failed: address collision"
  | .createEntered depth address gas =>
    s!"DEBUG fovea.create_work: enter init frame: depth {depth}, creating {address.hex}, gas {gas}"
  | .frameHalted depth gas =>
    s!"DEBUG fovea.interpreter: exit frame: depth {depth}, success, gas left {gas}"
  | .frameReverted depth gas =>
    s!"DEBUG fovea.interpreter: exit frame: depth {depth}, reverted, gas left {gas}"
  | .frameFailed depth failure =>
    s!"DEBUG fovea.interpreter: exit frame: depth {depth}, error {failure.name}"
  | .flushed count => s!"DEBUG fovea.state: flushed {count} accounts"
  | .applied sender nonce status gasUsed refund =>
    s!"INFO fovea.tx: applied tx from {sender.hex} nonce {nonce}: {status.name}, " ++
      s!"gas used {gasUsed}, refund {refund}"

end Event

/-- A step as it was about to be taken. -/
structure TraceStep where
  depth : Int
  pc : Int
  opcode : Opcode
  gas : Int
  stackSize : Nat
  top : Option Word
  memorySize : Nat
  deriving DecidableEq

end EvmCore
