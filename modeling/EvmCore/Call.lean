import EvmCore.Context
import EvmCore.Frame
import EvmCore.Substate
import EvmCore.World

/-!
# Calls

Starting a message call either gives the frame that runs the callee's code, under a checkpoint of
its own, or an outcome right away where there is no code to run. A frame that called goes on with
the outcome: it gets the unused gas back and a copy of the output in its memory.
-/

namespace EvmCore

/-- How deep frames may be nested. -/
def depthLimit : Int := 1024

/-- What comes of starting a call or a creation. -/
inductive Start where
  /-- There is code to run. -/
  | frame (frame : Frame)
  /-- There is not. -/
  | done (outcome : Outcome)

/-- A message call. -/
structure Call where
  caller : Address
  /-- The account whose storage and balance are used. -/
  address : Address
  /-- The account whose code is run. -/
  codeAddress : Address
  value : Int := 0
  gas : Int
  input : ByteArray := .empty
  readOnly : Bool := false
  /-- Whether the value is moved from the caller to the account. -/
  transfersValue : Bool := true
  depth : Int := 0

namespace Call

/-- The frame that runs the code of a call. -/
def frame (c : Call) (code : ByteArray) : Frame where
  message :=
    { self := c.address
      caller := c.caller
      codeAddress := c.codeAddress
      code := Code.ofBytes code
      input := c.input
      value := c.value
      readOnly := c.readOnly
      depth := c.depth }
  gas := c.gas

/-- Whether the caller lacks the value that it is to transfer. -/
def isUnfunded (c : Call) : Action Bool := do
  if c.transfersValue && 0 < c.value then return decide ((← World.balance c.caller) < c.value)
  else return false

/-- Whether the call goes to nobody and moves nothing. -/
def isVoid (ctx : Context) (c : Call) : Action Bool := do
  if c.transfersValue then
    let present ← World.isPresent c.codeAddress
    return !present && (ctx.precompiles[c.codeAddress]?).isNone && c.value = 0
  else return false

/-- Touches the account that is called and moves the value to it. -/
def moveValue (c : Call) : Action Unit := do
  if c.transfersValue then
    World.touch c.address
    Substate.touch c.address
    if 0 < c.value then World.transfer c.caller c.address c.value

/-- Runs a contract that is built into the machine. -/
def runPrecompile (c : Call) (precompile : Precompile) : Action Outcome := do
  let (output, cost) ← precompile c.input c.gas
  if c.gas < cost then
    State.revert
    return { exit := .failed .outOfGas, gasLeft := 0 }
  State.commit
  return { exit := .halted, gasLeft := c.gas - cost, output }

/-- Starts a call. -/
def start (ctx : Context) (c : Call) : Action Start := do
  if depthLimit < c.depth then
    State.emit (.callTooDeep c.address c.depth)
    return .done { exit := .failed .depth, gasLeft := c.gas }
  if ← c.isUnfunded then
    State.emit (.callUnfunded c.address c.value)
    return .done { exit := .failed .insufficientBalance, gasLeft := c.gas }
  if ← c.isVoid ctx then return .done { exit := .halted, gasLeft := c.gas }
  State.checkpoint
  c.moveValue
  if let some precompile := ctx.precompiles[c.codeAddress]? then
    return .done (← c.runPrecompile precompile)
  let code ← World.code c.codeAddress
  if code.size = 0 then
    State.commit
    return .done { exit := .halted, gasLeft := c.gas }
  State.emit (.callEntered c.depth c.address c.codeAddress c.gas)
  return .frame (c.frame code)

end Call

namespace CallRequest

/-- The call that a frame requests. -/
def toCall (r : CallRequest) (frame : Frame) : Call where
  caller := r.caller
  address := r.address
  codeAddress := r.codeAddress
  value := r.value
  gas := r.gas
  input := frame.memory.read r.inputOffset r.inputSize
  readOnly := r.readOnly
  transfersValue := r.transfersValue
  depth := frame.message.depth + 1

/-- Copies as much of the output of a call to memory as the caller asked for. -/
def copyOutput (r : CallRequest) (output : ByteArray) : EStateM Fault Frame Unit := do
  let data := Bytes.slice output 0 (min r.returnSize output.size)
  match (← get).memory.write r.returnOffset data with
  | .error fault => throw fault
  | .ok memory => modify ({ · with memory })

end CallRequest

/-- Goes on with a frame that called, given the outcome. Only a call that halted or reverted leaves
output behind. -/
def Frame.resumeCall (request : Option CallRequest) (outcome : Outcome) :
    EStateM Fault Frame Unit := do
  modify fun f =>
    { f with
      gas := f.gas + outcome.gasLeft
      stack := Word.ofBool outcome.success :: f.stack
      returnData := .empty }
  if outcome.success || outcome.reverted then
    modify ({ · with returnData := outcome.output })
    match request with
    | none => throw .missingRequest
    | some request => request.copyOutput outcome.output
  modify fun f => { f with mode := .running, pc := f.pc + 1 }

end EvmCore
