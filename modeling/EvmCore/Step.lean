import EvmCore.Arithmetic
import EvmCore.Context
import EvmCore.Gas.Dynamic

/-!
# Steps

One step of a frame runs one instruction, in phases: read the opcode, check the stack, check that
nothing is changed that must not be, pay the constant cost, find the memory needed, pay the dynamic
cost, grow the memory, and run the instruction. The first phase that fails ends the frame.
-/

namespace EvmCore

/-- A frame and the state of the transaction that it runs on. -/
structure Activation where
  frame : Frame
  state : State

/-- Why a step stops short. -/
inductive Stop where
  /-- The frame fails. -/
  | failure (failure : Failure)
  /-- There is no result at all. -/
  | fault (fault : Fault)
  deriving DecidableEq

/-- A part of a step. -/
abbrev StepM := EStateM Stop Activation

instance : MonadLift (Except Fault) StepM where
  monadLift
    | .ok a => pure a
    | .error fault => throw (.fault fault)

instance : MonadLift Action StepM where
  monadLift action := fun ⟨frame, state⟩ =>
    match action state with
    | .ok a state => .ok a ⟨frame, state⟩
    | .error fault state => .error (.fault fault) ⟨frame, state⟩

namespace Step

/-! ### The frame -/

/-- The frame as it is now. -/
def getFrame : StepM Frame := return (← get).frame

/-- Changes the frame. -/
@[inline] def modifyFrame (f : Frame → Frame) : StepM Unit :=
  modify fun ⟨frame, state⟩ => ⟨f frame, state⟩

/-- Ends the step with a failure of the frame. -/
def fail {α : Type} (failure : Failure) : StepM α := throw (.failure failure)

/-- Sets what the frame is about. -/
def setMode (mode : Mode) : StepM Unit := modifyFrame ({ · with mode })

/-- Moves on to the next instruction. -/
def advance : StepM Unit := modifyFrame fun f => { f with pc := f.pc + 1 }

/-- Pays for something. -/
def useGas (gas : Int) : StepM Unit := do
  let some frame := (← getFrame).useGas? gas | fail .outOfGas
  modifyFrame fun _ => frame

/-! ### The stack -/

/-- Replaces the whole stack. -/
def setStack (stack : Stack) : StepM Unit := modifyFrame ({ · with stack })

/-- Takes the word on top of the stack. -/
def pop : StepM Word := do
  let (v, rest) ← (← getFrame).stack.pop
  setStack rest
  return v

/-- Takes the word on top of the stack as 32 bytes. -/
def popBytes : StepM ByteArray := do
  match Bytes.ofWord? (← pop) with
  | some b => return b
  | none => throw (.fault .wordOverflow)

/-- Takes `n` words from the stack as 32 bytes each, the topmost first. -/
def popTopics : (n : Nat) → StepM (List ByteArray)
  | 0 => return []
  | n + 1 => do
    let topic ← popBytes
    return topic :: (← popTopics n)

/-- The word on top of the stack. -/
def peek : StepM Word := do (← getFrame).stack.peek

/-- Replaces the word on top of the stack. -/
def poke (v : Word) : StepM Unit := do setStack (← (← getFrame).stack.poke v)

/-- Puts a word on top of the stack. -/
def push (v : Word) : StepM Unit := modifyFrame fun f => { f with stack := v :: f.stack }

/-! ### Memory -/

/-- `size` bytes of memory from `offset` on. -/
def readMemory (offset size : Int) : StepM ByteArray :=
  return (← getFrame).memory.read offset size

/-- Changes the memory, unless that is refused. -/
@[inline] def modifyMemory (f : Memory → Except Fault Memory) : StepM Unit := fun ⟨frame, state⟩ =>
  match f frame.memory with
  | .ok memory => .ok () ⟨{ frame with memory }, state⟩
  | .error fault => .error (.fault fault) ⟨frame, state⟩

/-- Overwrites the memory from `offset` on. -/
def writeMemory (offset : Int) (data : ByteArray) : StepM Unit :=
  modifyMemory (·.write offset data)

/-! ### Instructions -/

/-- What an instruction pushes from the frame, the transaction or the block. -/
def environment (ctx : Context) (frame : Frame) : Environment → Word
  | .address => frame.message.self.toWord
  | .origin => ctx.origin.toWord
  | .caller => frame.message.caller.toWord
  | .callValue => frame.message.value
  | .callDataSize => frame.message.input.size
  | .codeSize => frame.message.code.bytes.size
  | .gasPrice => ctx.gasPrice
  | .returnDataSize => frame.returnData.size
  | .coinbase => ctx.block.coinbase.toWord
  | .timestamp => ctx.block.time
  | .number => ctx.block.number
  | .difficulty => ctx.block.difficulty
  | .gasLimit => ctx.block.gasLimit
  | .chainId => ctx.block.chainId
  | .baseFee => ctx.block.baseFee
  | .pc => frame.pc
  | .memorySize => frame.memory.size
  | .gas => frame.gas

/-- What an instruction learns of an account. The code hash of an empty account is zero. -/
def queryAccount (a : Address) : AccountQuery → Action Word
  | .balance => World.balance a
  | .codeSize => return (← World.code a).size
  | .codeHash => do
    if ← World.isEmpty a then return 0
    return Bytes.toWord (← World.codeHash a)

/-- Copies bytes to memory, with zeros past their end. -/
def copyPadded (source : StepM ByteArray) : StepM Unit := do
  let memoryOffset ← pop
  let offset ← pop
  let length ← pop
  if 0 < length then
    writeMemory memoryOffset (← Bytes.padSlice? (← source) offset length)
  advance

/-- Copies bytes of the last output to memory. Past its end there is nothing to copy. -/
def copyReturnData : StepM Unit := do
  let memoryOffset ← pop
  let offset ← pop
  let length ← pop
  let data := (← getFrame).returnData
  if data.size < offset + length then fail .invalidMemoryAccess
  writeMemory memoryOffset (Bytes.slice data offset (offset + length))
  advance

/-- Goes to a jump destination. -/
def jumpTo (dest : Word) : StepM Unit := do
  unless (← getFrame).message.code.validJumpDest dest do fail .invalidJump
  modifyFrame ({ · with pc := dest })

/-- Writes a storage slot and adjusts the refund counter. -/
def storeSlot (a : Address) (key value : Word) : Action Unit := do
  let current ← World.storage a key
  let initial ← World.initial a key
  let refund := (Gas.store initial current value false).refund
  if 0 < refund then Substate.addRefund refund
  else if refund < 0 then Substate.subRefund (-refund)
  World.setStorage a key value

/-- Moves the whole balance of a contract to a beneficiary and marks the contract for deletion. If
it is its own beneficiary, the balance is burnt. -/
def selfDestruct (self beneficiary : Address) : Action Unit := do
  World.addBalance beneficiary (← World.balance self)
  Substate.touch beneficiary
  World.setBalance self 0
  Substate.addSelfDestruct self

/-- The request of a call, made of its operands. `forwarded` is the gas for the callee. -/
def callRequest (kind : CallKind) (frame : Frame) (forwarded : Int) : Except Fault CallRequest := do
  let stack := frame.stack
  let target ← stack.backAddress 1
  match kind with
  | .call | .callCode =>
    let value ← stack.back 2
    return {
      kind
      caller := frame.message.self
      address := if kind = .call then target else frame.message.self
      codeAddress := target
      value
      gas := if value ≠ 0 then forwarded + Gas.callStipend else forwarded
      readOnly := frame.message.readOnly
      transfersValue := true
      inputOffset := ← stack.back 3
      inputSize := ← stack.back 4
      returnOffset := ← stack.back 5
      returnSize := ← stack.back 6 }
  | .delegateCall | .staticCall =>
    let isStatic : Bool := kind = .staticCall
    return {
      kind
      caller := if isStatic then frame.message.self else frame.message.caller
      address := if isStatic then target else frame.message.self
      codeAddress := target
      value := if isStatic then 0 else frame.message.value
      gas := forwarded
      readOnly := isStatic || frame.message.readOnly
      transfersValue := isStatic
      inputOffset := ← stack.back 2
      inputSize := ← stack.back 3
      returnOffset := ← stack.back 4
      returnSize := ← stack.back 5 }

/-- The number of operands of a call. -/
def callOperands : CallKind → Nat
  | .call | .callCode => 7
  | .delegateCall | .staticCall => 6

/-- Runs an instruction. `forwarded` is the gas for the callee, if it calls. -/
def run (ctx : Context) (forwarded : Int) : Opcode → StepM Unit
  | .stop => setMode (.exited .halted)
  | .unary op => do
    poke (op.eval (← peek))
    advance
  | .binary op => do
    let x ← pop
    let y ← peek
    op.check x y
    poke (op.eval x y)
    advance
  | .ternary op => do
    let x ← pop
    let y ← pop
    poke (op.eval x y (← peek))
    advance
  | .keccak => do
    let offset ← pop
    let size ← peek
    poke (Bytes.toWord (Keccak.hash (← readMemory offset size)))
    advance
  | .environment item => do
    push (environment ctx (← getFrame) item)
    advance
  | .account query => do
    poke (← queryAccount (Address.ofWord (← peek)) query)
    advance
  | .selfBalance => do
    push (← World.balance (← getFrame).message.self)
    advance
  | .callDataLoad => do
    poke (Bytes.toWord (Bytes.padSlice (← getFrame).message.input (← peek) 32))
    advance
  | .blockHash => do
    poke (ctx.block.hash (← peek))
    advance
  | .copy .callData => copyPadded (return (← getFrame).message.input)
  | .copy .code => copyPadded (return (← getFrame).message.code.bytes)
  | .copy .returnData => copyReturnData
  | .accountCodeCopy => do
    let a := Address.ofWord (← pop)
    copyPadded (World.code a)
  | .pop => do
    discard pop
    advance
  | .memoryLoad => do
    poke (Bytes.toWord ((← getFrame).memory.readWord (← peek)))
    advance
  | .memoryStore => do
    let offset ← pop
    let word ← popBytes
    modifyMemory (·.writeWord offset word)
    advance
  | .memoryStoreByte => do
    let offset ← pop
    let v ← pop
    let i ← (← getFrame).memory.byteIndex offset
    modifyFrame fun f => { f with memory := f.memory.setByte i (UInt8.ofNat (v % 256).toNat) }
    advance
  | .storageLoad => do
    poke (← World.storage (← getFrame).message.self (← peek))
    advance
  | .storageStore => do
    let key ← pop
    let value ← pop
    storeSlot (← getFrame).message.self key value
    advance
  | .jump => do jumpTo (← pop)
  | .jumpIf => do
    let dest ← pop
    if (← pop) ≠ 0 then jumpTo dest else advance
  | .jumpDest => advance
  | .push n =>
    modifyFrame fun f =>
      let start := f.pc + 1
      let size := n.val + 1
      let v := Bytes.toWord (Bytes.padSlice f.message.code.bytes start size)
      { f with stack := v :: f.stack, pc := start + size }
  | .dup n => do
    setStack (← (← getFrame).stack.dup n.val)
    advance
  | .swap n => do
    setStack (← (← getFrame).stack.swap (n.val + 1))
    advance
  | .log n => do
    let offset ← pop
    let size ← pop
    let topics ← popTopics n.val
    let data ← readMemory offset size
    Substate.addLog ⟨(← getFrame).message.self, topics, data⟩
    advance
  | .create kind => do
    let value ← pop
    let inputOffset ← pop
    let inputSize ← pop
    let salt ← if kind = .create2 then some <$> pop else pure none
    setMode (.awaitingCreate (some { value, inputOffset, inputSize, salt }))
  | .call kind => do
    let request ← callRequest kind (← getFrame) forwarded
    modifyFrame fun f =>
      { f with stack := f.stack.discard (callOperands kind), mode := .awaitingCall (some request) }
  | .return => do
    let offset ← pop
    let size ← pop
    let output ← readMemory offset size
    modifyFrame ({ · with output, mode := .exited .halted })
  | .revert => do
    let offset ← pop
    let size ← pop
    let output ← readMemory offset size
    modifyFrame ({ · with output, mode := .exited .reverted })
  | .invalid => fail .invalidOpcode
  | .selfDestruct => do
    let beneficiary := Address.ofWord (← pop)
    selfDestruct (← getFrame).message.self beneficiary
    setMode (.exited .halted)

/-! ### Phases -/

/-- Refuses a stack that is too short or would grow too long. -/
def checkStack (operation : Operation) : StepM Unit := do
  let size : Int := (← getFrame).stack.length
  if size < operation.minStack then fail .stackUnderflow
  if operation.maxStack < size then fail .stackOverflow

/-- Refuses to change accounts in a frame that must not. A call that transfers value changes them
too. -/
def checkReadOnly (op : Opcode) (operation : Operation) : StepM Unit := do
  let frame ← getFrame
  if frame.message.readOnly then
    if operation.writes then fail .staticCallViolation
    if op = .call .call then
      if (← frame.stack.back 2) ≠ 0 then fail .staticCallViolation

/-- Finds the memory size that the instruction needs, in whole words. -/
def findMemorySize (operation : Operation) : StepM Unit := do
  match ← operation.memory.size? (← getFrame).stack with
  | none => fail .invalidMemoryAccess
  | some size => modifyFrame ({ · with memoryDesired := Gas.wordCount size * 32 })

/-- Pays the dynamic cost; the result is the gas for a callee. -/
def payDynamic (operation : Operation) : StepM Int := do
  let frame ← getFrame
  match ← Gas.dynamic operation.dynamic frame frame.memoryDesired with
  | none => fail .outOfGas
  | some charge =>
    useGas charge.gas
    return charge.forwarded

/-- Grows the memory to the size that was found and paid for. -/
def growMemory : StepM Unit := do
  let frame ← getFrame
  let size := frame.memoryDesired
  if frame.memory.size < size then
    modifyMemory (·.resize size)
    modifyFrame ({ · with activeWords := size.toNat / 32 })

/-- Records the step that is about to be taken, if steps are to be recorded. -/
def recordStep (op : Opcode) : StepM Unit :=
  modify fun ⟨frame, state⟩ =>
    match state.trace with
    | none => ⟨frame, state⟩
    | some steps =>
      let step : TraceStep :=
        { depth := frame.message.depth
          pc := frame.pc
          opcode := op
          gas := frame.gas
          stackSize := frame.stack.length
          top := frame.stack.head?
          memorySize := frame.memory.size }
      ⟨frame, { state with trace := some (steps.push step) }⟩

/-- All phases of a step. -/
def phases (ctx : Context) : StepM Unit := do
  let frame ← getFrame
  let some byte := fetch? frame.message.code.bytes frame.pc | throw (.fault .outOfRange)
  let some (op, operation) := lookup byte | fail .invalidOpcode
  recordStep op
  checkStack operation
  checkReadOnly op operation
  useGas operation.constantGas
  findMemorySize operation
  let forwarded ← payDynamic operation
  growMemory
  run ctx forwarded op

end Step

/-- One step of a frame. A failure ends the frame; it is no fault. -/
def step (ctx : Context) : EStateM Fault Activation Unit := fun activation =>
  match Step.phases ctx activation with
  | .ok _ activation => .ok () activation
  | .error (.failure failure) ⟨frame, state⟩ =>
    .ok () ⟨{ frame with mode := .exited (.failed failure) }, state⟩
  | .error (.fault fault) activation => .error fault activation

end EvmCore
