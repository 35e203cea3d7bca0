import EvmCore.Create
import EvmCore.Step

/-!
# The machine

Frames run on an explicit stack: the top one takes steps, those below wait for the outcome of the
frame above them. When a frame ends, its changes are kept or undone and the frame below goes on.
Each iteration of the loop uses up part of the gas, so the gas of the entry frame bounds their
number, as long as nothing handed in from outside gives gas back.
-/

namespace EvmCore

instance : MonadLift Action (EStateM Fault Activation) where
  monadLift action := fun ⟨frame, state⟩ =>
    match action state with
    | .ok a state => .ok a ⟨frame, state⟩
    | .error fault state => .error fault ⟨frame, state⟩

instance : MonadLift (EStateM Fault Frame) (EStateM Fault Activation) where
  monadLift action := fun ⟨frame, state⟩ =>
    match action frame with
    | .ok a frame => .ok a ⟨frame, state⟩
    | .error fault frame => .error fault ⟨frame, state⟩

namespace Frame

/-- Starts the call that a frame requests. -/
def beginCall (ctx : Context) (r : CallRequest) : EStateM Fault Activation Start := do
  modify fun a => { a with frame := { a.frame with returnData := .empty } }
  Call.start ctx (r.toCall (← get).frame)

/-- The address of the contract that a frame requests to create. -/
def createAddress (self : Address) (r : CreateRequest) (initCode : ByteArray) : Action Address := do
  match r.salt with
  | some salt => Creation.saltedAddress self salt initCode
  | none => Creation.addressAt self (← World.nonce self)

/-- Starts the creation that a frame requests. All but one part in 64 of its gas goes to the init
code. -/
def beginCreate (r : CreateRequest) : EStateM Fault Activation Start := do
  let frame := (← get).frame
  let initCode := frame.memory.read r.inputOffset r.inputSize
  let gas := frame.gas - frame.gas / 64
  modify fun a =>
    { a with frame := { (a.frame.useGas? gas).getD a.frame with returnData := .empty } }
  let self := frame.message.self
  let address ← createAddress self r initCode
  Creation.start
    { creator := self, address, initCode, gas, value := r.value, depth := frame.message.depth + 1 }

/-- Gives up on a frame that waits for something it never requested. -/
def lackRequest : EStateM Fault Activation Start := do
  modify fun a => { a with frame := { a.frame with returnData := .empty } }
  throw .missingRequest

/-- Goes on with a frame that waits for an outcome. -/
def resume (outcome : Outcome) : EStateM Fault Frame Unit := do
  let frame ← get
  match frame.mode with
  | .awaitingCall request => resumeCall request outcome
  | .awaitingCreate _ => resumeCreate outcome
  | mode => throw (.notWaiting frame.message.depth mode.name)

/-- Deploys the output of init code that halted, or fails. -/
def deploy : EStateM Fault Activation Unit := do
  let frame := (← get).frame
  match deployFailure? frame.output frame.gas with
  | some failure =>
    modify fun a => { a with frame := { a.frame with mode := .exited (.failed failure) } }
  | none =>
    let cost := frame.output.size * Gas.createByte
    modify fun a => { a with frame := { a.frame with gas := a.frame.gas - cost } }
    World.setCode frame.message.self frame.output

/-- Leaves a frame that ended: keeps or undoes its changes, and tells the outcome. -/
def leave : EStateM Fault Activation Outcome := do
  let frame := (← get).frame
  if frame.message.isInit && frame.mode = .exited .halted then deploy
  let frame := (← get).frame
  let depth := frame.message.depth
  match frame.mode with
  | .exited .halted =>
    State.commit
    State.emit (.frameHalted depth frame.gas)
    if frame.message.isInit then
      return { exit := .halted, gasLeft := frame.gas, created := some frame.message.self }
    return { exit := .halted, gasLeft := frame.gas, output := frame.output }
  | .exited .reverted =>
    State.revert
    State.emit (.frameReverted depth frame.gas)
    return { exit := .reverted, gasLeft := frame.gas, output := frame.output }
  | .exited (.failed failure) =>
    State.revert
    State.emit (.frameFailed depth failure)
    modify fun a => { a with frame := { a.frame with gas := 0 } }
    return { exit := .failed failure, gasLeft := 0 }
  | mode =>
    State.revert
    throw (.exitWhileActive mode.name)

end Frame

/-- The frames of an execution and the state of the transaction. -/
structure Machine where
  /-- The frame that runs. -/
  top : Frame
  /-- The frames that wait, innermost first. -/
  waiting : List Frame := []
  state : State

namespace Machine

/-- Does something with the top frame and the state. -/
@[inline] def withTop {α : Type} (action : EStateM Fault Activation α) :
    EStateM Fault Machine α := fun ⟨top, waiting, state⟩ =>
  match action ⟨top, state⟩ with
  | .ok a ⟨top, state⟩ => .ok a ⟨top, waiting, state⟩
  | .error fault ⟨top, state⟩ => .error fault ⟨top, waiting, state⟩

/-- Goes on after starting a call or a creation: with the new frame on top, or with the top frame
and the outcome. -/
def enter : Start → EStateM Fault Machine Unit
  | .frame child =>
    modify fun ⟨top, waiting, state⟩ => ⟨child, top :: waiting, state⟩
  | .done outcome => withTop (Frame.resume outcome)

/-- Leaves the top frame. If none is left the outcome is that of the execution. -/
def leave : EStateM Fault Machine (Option Outcome) := do
  let outcome ← withTop Frame.leave
  match (← get).waiting with
  | [] => return some outcome
  | parent :: rest =>
    modify fun m => { m with top := parent, waiting := rest }
    withTop (Frame.resume outcome)
    return none

/-- One iteration of the machine. -/
def iterate (ctx : Context) : EStateM Fault Machine (Option Outcome) := do
  match (← get).top.mode with
  | .running =>
    withTop (step ctx)
    return none
  | .awaitingCall (some request) =>
    enter (← withTop (Frame.beginCall ctx request))
    return none
  | .awaitingCreate (some request) =>
    enter (← withTop (Frame.beginCreate request))
    return none
  | .awaitingCall none | .awaitingCreate none =>
    enter (← withTop Frame.lackRequest)
    return none
  | .exited _ => leave

/-- At most `n` iterations of the machine, until the entry frame has ended. -/
def run (ctx : Context) : (n : Nat) → Machine → EStateM.Result Fault Machine Outcome
  | 0, m => .error .unbounded m
  | n + 1, m =>
    match iterate ctx m with
    | .ok (some outcome) m => .ok outcome m
    | .ok none m => run ctx n m
    | .error fault m => .error fault m

/-- The frame that the execution was entered with, as it is now. -/
def entry (m : Machine) : Frame := m.waiting.getLast?.getD m.top

end Machine

/-- How many iterations an execution may take beyond those that its gas pays for. Operands that are
no words and contracts built into the machine at a negative price give gas back, so that no amount
of gas tells how long an execution with these takes. -/
def iterationAllowance : Nat := 0x1000000000000000

/-- The number of iterations after which an execution counts as endless. -/
def iterationBound (gas : Int) : Nat := 4 * gas.toNat + iterationAllowance

/-- Runs a frame and all frames below it to the end. There must be a checkpoint for it. -/
def execute (ctx : Context) (entry : Frame) (state : State) :
    EStateM.Result Fault Machine Outcome :=
  Machine.run ctx (iterationBound entry.gas) { top := entry, state }

/-- Runs what was started to the end. -/
def Start.finish (ctx : Context) : Start → Action Outcome
  | .done outcome => return outcome
  | .frame entry => fun state =>
    match execute ctx entry state with
    | .ok outcome m => .ok outcome m.state
    | .error fault m => .error fault m.state

end EvmCore
