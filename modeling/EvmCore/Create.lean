import EvmCore.Call
import EvmCore.Gas.Schedule

/-!
# Creations

Starting a creation gives the frame that runs the init code, under a checkpoint of its own, unless
the creation fails at once. When the init code halts, its output is deployed as the code of the new
contract. A frame that created goes on with the address of the contract, or zero.
-/

namespace EvmCore

/-- The largest nonce of an account. -/
def maxNonce : Int := 0xffffffffffffffff

/-- The most bytes of code that a contract may have. -/
def maxCodeSize : Nat := 24576

/-- No deployed code may start with this byte. -/
def reservedByte : UInt8 := 0xEF

/-- The creation of a contract. -/
structure Creation where
  creator : Address
  address : Address
  initCode : ByteArray
  gas : Int
  value : Int := 0
  depth : Int := 0

namespace Creation

/-- The address of the contract that an account creates at its nonce. -/
def addressAt (creator : Address) (nonce : Int) : Except Fault Address :=
  if nonce < 0 then .error .negativeEncoding else .ok (Address.create creator nonce.toNat)

/-- The address of the contract that an account creates from init code with a salt. -/
def saltedAddress (creator : Address) (salt : Word) (initCode : ByteArray) :
    Except Fault Address :=
  match Bytes.ofWord? salt with
  | none => .error .wordOverflow
  | some salt => .ok (Address.createSalted creator salt initCode)

/-- The frame that runs the init code. -/
def frame (c : Creation) : Frame where
  message :=
    { self := c.address
      caller := c.creator
      codeAddress := c.address
      code := Code.ofBytes c.initCode
      value := c.value
      isInit := true
      depth := c.depth }
  gas := c.gas

/-- Whether an address is taken. A balance alone does not take it. -/
def isTaken (a : Address) : Action Bool := do
  if (← World.nonce a) ≠ 0 then return true
  if (← World.code a).size ≠ 0 then return true
  World.hasStorage a

/-- Starts a creation. The nonce of the creator is spent even if the address is taken. -/
def start (c : Creation) : Action Start := do
  if depthLimit < c.depth then return .done { exit := .failed .depth, gasLeft := c.gas }
  if (← World.balance c.creator) < c.value then
    return .done { exit := .failed .insufficientBalance, gasLeft := c.gas }
  let nonce ← World.nonce c.creator
  if maxNonce < nonce + 1 then
    return .done { exit := .failed .nonceOverflow, gasLeft := c.gas }
  World.setNonce c.creator (nonce + 1)
  discard (Substate.warmAccount c.address)
  if ← isTaken c.address then
    State.emit (.createCollided c.address)
    return .done { exit := .failed .addressCollision, gasLeft := 0 }
  State.checkpoint
  World.create c.address
  if 0 < c.value then World.transfer c.creator c.address c.value
  State.emit (.createEntered c.depth c.address c.gas)
  return .frame c.frame

end Creation

/-- Why the output of init code cannot be deployed for the gas that is left, if it cannot. -/
def deployFailure? (code : ByteArray) (gas : Int) : Option Failure :=
  if maxCodeSize < code.size then some .maxCodeSizeExceeded
  else if code.data[0]? = some reservedByte then some .invalidCode
  else if gas < code.size * Gas.createByte then some .codeStoreOutOfGas
  else none

/-- The word that a creation leaves on the stack of the creator: the address of the contract, or
zero if there is none. -/
def Outcome.createdWord (outcome : Outcome) : Except Fault Word :=
  match outcome.exit, outcome.created with
  | .halted, some a => .ok a.toWord
  | .halted, none => .error .missingAddress
  | _, _ => .ok 0

/-- Goes on with a frame that created, given the outcome. Only init code that reverted leaves
output behind. -/
def Frame.resumeCreate (outcome : Outcome) : EStateM Fault Frame Unit := do
  modify fun f => { f with gas := f.gas + outcome.gasLeft }
  match outcome.createdWord with
  | .error fault => throw fault
  | .ok v =>
    modify fun f =>
      { f with
        stack := v :: f.stack
        returnData := if outcome.reverted then outcome.output else .empty
        mode := .running
        pc := f.pc + 1 }

end EvmCore
