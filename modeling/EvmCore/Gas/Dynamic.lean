import EvmCore.Frame
import EvmCore.Gas.Storage
import EvmCore.Operation
import EvmCore.Substate
import EvmCore.World

/-!
# The dynamic cost of instructions

The part of the cost that depends on the operands, the memory and the accounts. Finding it warms
the accounts and slots that the instruction accesses, whether or not the cost can be paid.
-/

namespace EvmCore

namespace Gas

/-- What an instruction costs beside its constant cost. -/
structure Charge where
  gas : Int
  /-- The part of it that goes to the callee of a call. -/
  forwarded : Int := 0
  deriving DecidableEq

/-- What a callee gets: all but one part in 64 of the gas left after the base cost, and no more than
the caller asked for. Nothing if the base cost cannot be paid. -/
def callGas? (available base requested : Int) : Option Int :=
  if available < base then none
  else
    let rest := available - base
    some (min (rest - rest / 64) requested)

/-- Warms an account; the result is what a cold one costs more than a warm one. -/
def accountSurcharge (a : Address) : Action Int := do
  return if ← Substate.warmAccount a then 0 else coldAccount - warmAccess

/-- The charge of a call whose own cost is `base`. -/
def callCharge (frame : Frame) (base : Int) : Action (Option Charge) := do
  let requested ← frame.stack.back 0
  return (callGas? frame.gas base requested).map fun gas => ⟨base + gas, gas⟩

/-- What the growth of memory to `size` bytes costs. -/
def growth? (frame : Frame) (size : Int) : Option Int := expansion? frame.activeWords size

/-- The growth of memory and a price per word of the length at a place on the stack. -/
def perWordCost (frame : Frame) (size price : Int) (length : Nat) : Action (Option Int) := do
  let some gas := growth? frame size | return none
  return some (gas + wordCount (← frame.stack.back length) * price)

/-- The dynamic charge of an instruction of `frame` that needs `size` bytes of memory; nothing if no
amount of gas is enough. -/
def dynamic (cost : DynamicCost) (frame : Frame) (size : Int) : Action (Option Charge) := do
  match cost with
  | .none => return some ⟨0, 0⟩
  | .memory => return (growth? frame size).map fun gas => ⟨gas, 0⟩
  | .perWord price length =>
    return (← perWordCost frame size price length).map fun gas => ⟨gas, 0⟩
  | .exp => return some ⟨Word.byteLength (← frame.stack.back 1) * expByte, 0⟩
  | .log topics =>
    let some gas := growth? frame size | return none
    let length ← frame.stack.back 1
    return some ⟨gas + log + topics * logTopic + length * logByte, 0⟩
  | .account => return some ⟨← accountSurcharge (← frame.stack.backAddress 0), 0⟩
  | .accountCodeCopy =>
    let some gas ← perWordCost frame size copyWord 3 | return none
    return some ⟨gas + (← accountSurcharge (← frame.stack.backAddress 0)), 0⟩
  | .storageLoad =>
    let key ← frame.stack.back 0
    let warm ← Substate.warmSlot ⟨frame.message.self, key⟩
    return some ⟨if warm then warmAccess else coldSlot, 0⟩
  | .storageStore =>
    if frame.gas ≤ storeSentry then return none
    let key ← frame.stack.back 0
    let value ← frame.stack.back 1
    let warm ← Substate.warmSlot ⟨frame.message.self, key⟩
    let current ← World.storage frame.message.self key
    let initial ← World.initial frame.message.self key
    return some ⟨(store initial current value !warm).cost, 0⟩
  | .selfDestruct =>
    let beneficiary ← frame.stack.backAddress 0
    let warm ← Substate.warmAccount beneficiary
    let access := if warm then 0 else coldAccount
    if ← World.isEmpty beneficiary then
      if (← World.balance frame.message.self) ≠ 0 then
        return some ⟨access + selfDestructNewAccount, 0⟩
    return some ⟨access, 0⟩
  | .call .call =>
    let callee ← frame.stack.backAddress 1
    let value ← frame.stack.back 2
    let access ← accountSurcharge callee
    let newAccount ←
      if value ≠ 0 then do pure (if ← World.isEmpty callee then callNewAccount else 0) else pure 0
    let some memory := growth? frame size | return none
    let transfer := if value ≠ 0 then callValueTransfer else 0
    callCharge frame (access + newAccount + memory + transfer)
  | .call .callCode =>
    let access ← accountSurcharge (← frame.stack.backAddress 1)
    let some memory := growth? frame size | return none
    let value ← frame.stack.back 2
    let transfer := if value ≠ 0 then callValueTransfer else 0
    callCharge frame (access + memory + transfer)
  | .call .delegateCall | .call .staticCall =>
    let access ← accountSurcharge (← frame.stack.backAddress 1)
    let some memory := growth? frame size | return none
    callCharge frame (access + memory)

end Gas

end EvmCore
