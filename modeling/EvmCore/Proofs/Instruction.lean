import EvmCore.Proofs.StepPart
import Mathlib

/-!
# What an instruction does

`Executes ctx forwarded op f s f' s'` says everything about a run of the instruction `op` that ends
with a value: the operands it took, the frame it left, and what it did to what is shown of the
state. Most instructions leave the state quiet; only writing storage, logging and destroying a
contract do not. There is one rule per instruction, and `executes_of_run` reads it off the program.
Everything else that is known about instructions is proved from these rules.

An instruction that fails has not touched the state (`run_fails`).
-/

namespace EvmCore

/-! ### Questions and changes of instructions, on views -/

namespace View

/-- What an instruction learns of an account. -/
def query (v : View) (a : Address) : AccountQuery → Word
  | .balance => (v.get a).balance
  | .codeSize => (v.get a).code.size
  | .codeHash => if (v.get a).isEmpty then 0 else Bytes.toWord (v.codeHash a)

/-- Changes the refund counter by an amount of either sign. -/
def adjustRefund (refund : Int) : ViewM Unit :=
  if 0 < refund then writes fun v => v.addRefund refund
  else if refund < 0 then subRefund (-refund)
  else pure ()

/-- Writes a storage slot and adjusts the refund counter. -/
def storeSlot (a : Address) (key value : Word) : ViewM Unit := do
  let v ← MonadState.get
  adjustRefund (Gas.store (v.initialWord a key) ((v.get a).storage.read key) value false).refund
  writes fun v => v.update a fun account =>
    { account with storage := account.storage.write key value }

/-- Moves the whole balance of a contract to a beneficiary and marks the contract for deletion. -/
def selfDestruct (self beneficiary : Address) : ViewM Unit := do
  let v ← MonadState.get
  setBalance beneficiary ((v.get beneficiary).balance + (v.get self).balance)
  writes fun v => v.markTouched beneficiary
  setBalance self 0
  writes fun v => v.addSelfDestruct self

end View

namespace Step

/-- What an instruction asks of an account is asked of what is shown. -/
theorem queryAccount_mirrors (a : Address) (query : AccountQuery) :
    Mirrors (queryAccount a query) (View.reads fun v => v.query a query) := by
  cases query with
  | balance => exact World.balance_mirrors a
  | codeSize => exact (World.code_mirrors a).read _
  | codeHash =>
    refine ((World.isEmpty_mirrors a).bind
      (g := fun empty => View.reads fun v => if empty then 0 else Bytes.toWord (v.codeHash a))
      fun empty => ?_).congr fun _ => rfl
    -- the hash of the code is asked for only if the account is not empty
    cases empty with
    | true => exact Mirrors.pure 0
    | false => exact (World.codeHash_mirrors a).read _

/-- Writing a slot, on what is shown: the two words it held decide about the refund. -/
theorem storeSlot_mirrors (a : Address) (key value : Word) :
    Mirrors (storeSlot a key value) (View.storeSlot a key value) := by
  refine ((World.storage_mirrors a key).bind fun current =>
    (World.initial_mirrors a key).bind fun initial => ?_).congr
      (y := View.reads _ >>= fun current => View.reads _ >>= fun initial =>
        View.adjustRefund (Gas.store initial current value false).refund >>= fun _ =>
        View.writes fun v => v.update a fun account =>
          { account with storage := account.storage.write key value }) fun _ => rfl
  -- the view writes once at the end, whichever way the counter goes
  have hset := World.setStorage_mirrors a key value
  rw [View.adjustRefund]
  dsimp only
  split
  · exact (Substate.addRefund_mirrors _).bind fun _ => hset
  · split
    · exact (Substate.subRefund_mirrors _).bind fun _ => hset
    · exact hset

/-- Destroying a contract, on what is shown. -/
theorem selfDestruct_mirrors (self beneficiary : Address) :
    Mirrors (selfDestruct self beneficiary) (View.selfDestruct self beneficiary) :=
  ((World.balance_mirrors self).bind fun b => (World.addBalance_mirrors beneficiary b).bind fun _ =>
    (Substate.touch_mirrors beneficiary).bind fun _ =>
    (World.setBalance_mirrors self 0).bind fun _ => Substate.addSelfDestruct_mirrors self).congr
      fun _ => rfl

end Step

/-! ### The rules -/

/-- The frame at its next instruction, with another stack. -/
def Frame.next (f : Frame) (stack : Stack) : Frame := { f with stack, pc := f.pc + 1 }

/-- The bytes that an instruction copies from the frame. -/
def Frame.copySource (f : Frame) : CopySource → ByteArray
  | .callData => f.message.input
  | .code => f.message.code.bytes
  | .returnData => f.returnData

/-- Memory after bytes were copied to it, with zeros past their end. -/
def CopiesPadded (bytes : ByteArray) (memoryOffset offset length : Int) (m m' : Memory) : Prop :=
  if 0 < length then
    ∃ data, Bytes.padSlice? bytes offset length = .ok data ∧ m' = m.overwrite memoryOffset data
  else m' = m

/-- An instruction that ended with a value, from `f` and `s` to `f'` and `s'`. -/
inductive Executes (ctx : Context) (forwarded : Int) :
    Opcode → Frame → State → Frame → State → Prop
  | stop {f : Frame} {s : State} :
      Executes ctx forwarded .stop f s { f with mode := .exited .halted } s
  -- words, taken from the top of the stack
  | unary {op : Unary} {f : Frame} {s : State} {x : Word} {rest : Stack} :
      f.stack = x :: rest → Executes ctx forwarded (.unary op) f s (f.next (op.eval x :: rest)) s
  | binary {op : Binary} {f : Frame} {s : State} {x y : Word} {rest : Stack} :
      f.stack = x :: y :: rest → op.check x y = .ok () →
      Executes ctx forwarded (.binary op) f s (f.next (op.eval x y :: rest)) s
  | ternary {op : Ternary} {f : Frame} {s : State} {x y z : Word} {rest : Stack} :
      f.stack = x :: y :: z :: rest →
      Executes ctx forwarded (.ternary op) f s (f.next (op.eval x y z :: rest)) s
  | keccak {f : Frame} {s : State} {offset size : Word} {rest : Stack} :
      f.stack = offset :: size :: rest →
      Executes ctx forwarded .keccak f s
        (f.next (Bytes.toWord (Keccak.hash (f.memory.read offset size)) :: rest)) s
  | environment {item : Environment} {f : Frame} {s : State} :
      Executes ctx forwarded (.environment item) f s
        (f.next (Step.environment ctx f item :: f.stack)) s
  -- questions to the state, which may have to fetch the account
  | account {query : AccountQuery} {f : Frame} {s s' : State} {x : Word} {rest : Stack} :
      f.stack = x :: rest → Quiet s s' →
      Executes ctx forwarded (.account query) f s
        (f.next (s.view.query (Address.ofWord x) query :: rest)) s'
  | selfBalance {f : Frame} {s s' : State} :
      Quiet s s' →
      Executes ctx forwarded .selfBalance f s
        (f.next ((s.view.get f.message.self).balance :: f.stack)) s'
  | callDataLoad {f : Frame} {s : State} {x : Word} {rest : Stack} :
      f.stack = x :: rest →
      Executes ctx forwarded .callDataLoad f s
        (f.next (Bytes.toWord (Bytes.padSlice f.message.input x 32) :: rest)) s
  | blockHash {f : Frame} {s : State} {x : Word} {rest : Stack} :
      f.stack = x :: rest →
      Executes ctx forwarded .blockHash f s (f.next (ctx.block.hash x :: rest)) s
  -- copies to memory; that of the data of the last call does not pad
  | copy {source : CopySource} {f : Frame} {s : State} {memoryOffset offset length : Word}
      {rest : Stack} {memory : Memory} :
      f.stack = memoryOffset :: offset :: length :: rest → source ≠ .returnData →
      CopiesPadded (f.copySource source) memoryOffset offset length f.memory memory →
      Executes ctx forwarded (.copy source) f s { f.next rest with memory } s
  | copyReturnData {f : Frame} {s : State} {memoryOffset offset length : Word} {rest : Stack} :
      f.stack = memoryOffset :: offset :: length :: rest → offset + length ≤ f.returnData.size →
      Executes ctx forwarded (.copy .returnData) f s
        { f.next rest with
          memory := f.memory.overwrite memoryOffset
            (Bytes.slice f.returnData offset (offset + length)) } s
  | accountCodeCopy {f : Frame} {s s' : State} {x memoryOffset offset length : Word} {rest : Stack}
      {memory : Memory} :
      f.stack = x :: memoryOffset :: offset :: length :: rest → Quiet s s' →
      CopiesPadded (s.view.get (Address.ofWord x)).code memoryOffset offset length f.memory memory →
      Executes ctx forwarded .accountCodeCopy f s { f.next rest with memory } s'
  -- the frame's own stack, memory and program counter, and storage
  | pop {f : Frame} {s : State} {x : Word} {rest : Stack} :
      f.stack = x :: rest → Executes ctx forwarded .pop f s (f.next rest) s
  | memoryLoad {f : Frame} {s : State} {x : Word} {rest : Stack} :
      f.stack = x :: rest →
      Executes ctx forwarded .memoryLoad f s
        (f.next (Bytes.toWord (f.memory.readWord x) :: rest)) s
  | memoryStore {f : Frame} {s : State} {offset v : Word} {rest : Stack} {data : ByteArray} :
      f.stack = offset :: v :: rest → Bytes.ofWord? v = some data →
      Executes ctx forwarded .memoryStore f s
        { f.next rest with memory := f.memory.overwrite offset data } s
  | memoryStoreByte {f : Frame} {s : State} {offset v : Word} {rest : Stack} {i : Nat} :
      f.stack = offset :: v :: rest → f.memory.byteIndex offset = .ok i →
      Executes ctx forwarded .memoryStoreByte f s
        { f.next rest with memory := f.memory.setByte i (UInt8.ofNat (v % 256).toNat) } s
  | storageLoad {f : Frame} {s s' : State} {key : Word} {rest : Stack} :
      f.stack = key :: rest → Quiet s s' →
      Executes ctx forwarded .storageLoad f s
        (f.next ((s.view.get f.message.self).storage.read key :: rest)) s'
  | storageStore {f : Frame} {s s' : State} {key value : Word} {rest : Stack} :
      f.stack = key :: value :: rest → Grows s s' →
      View.storeSlot f.message.self key value s.view = .ok () s'.view →
      Executes ctx forwarded .storageStore f s (f.next rest) s'
  | jump {f : Frame} {s : State} {dest : Word} {rest : Stack} :
      f.stack = dest :: rest → f.message.code.validJumpDest dest →
      Executes ctx forwarded .jump f s { f with stack := rest, pc := dest } s
  | jumpIfTaken {f : Frame} {s : State} {dest condition : Word} {rest : Stack} :
      f.stack = dest :: condition :: rest → condition ≠ 0 → f.message.code.validJumpDest dest →
      Executes ctx forwarded .jumpIf f s { f with stack := rest, pc := dest } s
  | jumpIfSkipped {f : Frame} {s : State} {dest : Word} {rest : Stack} :
      f.stack = dest :: 0 :: rest → Executes ctx forwarded .jumpIf f s (f.next rest) s
  | jumpDest {f : Frame} {s : State} : Executes ctx forwarded .jumpDest f s (f.next f.stack) s
  | push {n : Fin 32} {f : Frame} {s : State} :
      Executes ctx forwarded (.push n) f s
        { f with
          stack :=
            Bytes.toWord (Bytes.padSlice f.message.code.bytes (f.pc + 1) (n.val + 1)) :: f.stack
          pc := f.pc + 1 + (n.val + 1 : Nat) } s
  | dup {n : Fin 16} {f : Frame} {s : State} {stack : Stack} :
      f.stack.dup n.val = .ok stack → Executes ctx forwarded (.dup n) f s (f.next stack) s
  | swap {n : Fin 16} {f : Frame} {s : State} {stack : Stack} :
      f.stack.swap (n.val + 1) = .ok stack → Executes ctx forwarded (.swap n) f s (f.next stack) s
  -- what leaves a trace outside the frame or hands over to another one
  | log {n : Fin 5} {f : Frame} {s s' : State} {offset size : Word} {words rest : Stack}
      {topics : List ByteArray} :
      f.stack = offset :: size :: (words ++ rest) → words.length = n.val →
      words.map Bytes.ofWord? = topics.map some → Grows s s' →
      s'.view = s.view.addLog ⟨f.message.self, topics, f.memory.read offset size⟩ →
      Executes ctx forwarded (.log n) f s (f.next rest) s'
  | create {kind : CreateKind} {f : Frame} {s : State} {value inputOffset inputSize : Word}
      {salt : Option Word} {rest : Stack} :
      f.stack = value :: inputOffset :: inputSize :: (salt.toList ++ rest) →
      (salt.isSome ↔ kind = .create2) →
      Executes ctx forwarded (.create kind) f s
        { f with
          stack := rest
          mode := .awaitingCreate (some { value, inputOffset, inputSize, salt }) } s
  | call {kind : CallKind} {f : Frame} {s : State} {request : CallRequest} :
      Step.callRequest kind f forwarded = .ok request →
      Executes ctx forwarded (.call kind) f s
        { f with
          stack := f.stack.discard (Step.callOperands kind)
          mode := .awaitingCall (some request) } s
  | return {f : Frame} {s : State} {offset size : Word} {rest : Stack} :
      f.stack = offset :: size :: rest →
      Executes ctx forwarded .return f s
        { f with
          stack := rest, output := f.memory.read offset size, mode := .exited .halted } s
  | revert {f : Frame} {s : State} {offset size : Word} {rest : Stack} :
      f.stack = offset :: size :: rest →
      Executes ctx forwarded .revert f s
        { f with
          stack := rest, output := f.memory.read offset size, mode := .exited .reverted } s
  | selfDestruct {f : Frame} {s s' : State} {x : Word} {rest : Stack} :
      f.stack = x :: rest → Grows s s' →
      View.selfDestruct f.message.self (Address.ofWord x) s.view = .ok () s'.view →
      Executes ctx forwarded .selfDestruct f s
        { f with stack := rest, mode := .exited .halted } s'

/-- No instruction changes what the frame was sent. -/
theorem Executes.message {ctx : Context} {forwarded : Int} {op : Opcode} {f f' : Frame}
    {s s' : State} (h : Executes ctx forwarded op f s f' s') : f'.message = f.message := by
  cases h with
  -- the message is no part of what any rule changes
  | _ => rfl

/-! ### Reading the rules off -/

namespace Step

/-- **What a call requests**, read off its operands. The last four of them are the two regions. -/
theorem callRequest_cases {kind : CallKind} {f : Frame} {forwarded : Int} {r : CallRequest}
    (h : callRequest kind f forwarded = .ok r) :
    f.stack.back (callOperands kind - 4) = .ok r.inputOffset ∧
    f.stack.back (callOperands kind - 3) = .ok r.inputSize ∧
    f.stack.back (callOperands kind - 2) = .ok r.returnOffset ∧
    f.stack.back (callOperands kind - 1) = .ok r.returnSize ∧
    (((kind = .call ∨ kind = .callCode) ∧ f.stack.back 2 = .ok r.value ∧
        r.gas = (if r.value ≠ 0 then forwarded + Gas.callStipend else forwarded) ∧
        r.readOnly = f.message.readOnly ∧ (kind = .callCode → r.caller = r.address)) ∨
      ((kind = .delegateCall ∨ kind = .staticCall) ∧
        r.value = (if kind = .staticCall then 0 else f.message.value) ∧ r.gas = forwarded ∧
        r.readOnly = (decide (kind = .staticCall) || f.message.readOnly) ∧
        r.transfersValue = decide (kind = .staticCall))) := by
  obtain ⟨target, -, h⟩ := except_bind_ok h
  cases kind with
  | call | callCode =>
    obtain ⟨value, hvalue, h⟩ := except_bind_ok h
    obtain ⟨inputOffset, hinputOffset, h⟩ := except_bind_ok h
    obtain ⟨inputSize, hinputSize, h⟩ := except_bind_ok h
    obtain ⟨returnOffset, hreturnOffset, h⟩ := except_bind_ok h
    obtain ⟨returnSize, hreturnSize, h⟩ := except_bind_ok h
    cases h
    refine ⟨hinputOffset, hinputSize, hreturnOffset, hreturnSize, .inl ?_⟩
    refine ⟨by decide, hvalue, rfl, rfl, fun hkind => ?_⟩
    -- only a plain call runs on another account
    dsimp only
    rw [if_neg]
    exact fun hcall => CallKind.noConfusion (hcall.symm.trans hkind)
  | delegateCall | staticCall =>
    obtain ⟨inputOffset, hinputOffset, h⟩ := except_bind_ok h
    obtain ⟨inputSize, hinputSize, h⟩ := except_bind_ok h
    obtain ⟨returnOffset, hreturnOffset, h⟩ := except_bind_ok h
    obtain ⟨returnSize, hreturnSize, h⟩ := except_bind_ok h
    cases h
    refine ⟨hinputOffset, hinputSize, hreturnOffset, hreturnSize, .inr ?_⟩
    exact ⟨by decide, rfl, rfl, rfl, rfl⟩

section Parts

variable {f : Frame} {s : State} {a' : Activation} {u : Unit}

/-- The topmost word is replaced, and the frame goes on. -/
theorem poke_advance_ok {v top : Word} {rest : Stack} (hstack : f.stack = top :: rest)
    (h : (poke v >>= fun _ => advance) ⟨f, s⟩ = .ok u a') : a' = ⟨f.next (v :: rest), s⟩ := by
  obtain ⟨_, a₁, hpoke, h⟩ := bind_ok_iff.mp h
  obtain ⟨top', rest', hstack', rfl⟩ := poke_ok hpoke
  rw [hstack] at hstack'
  cases hstack'
  exact advance_ok_iff.mp h

/-- A word is put on the stack, and the frame goes on. -/
theorem push_advance_ok {v : Word} (h : (push v >>= fun _ => advance) ⟨f, s⟩ = .ok u a') :
    a' = ⟨f.next (v :: f.stack), s⟩ := by
  obtain ⟨_, a₁, hpush, h⟩ := bind_ok_iff.mp h
  rw [push, modifyFrame_ok_iff] at hpush
  subst hpush
  exact advance_ok_iff.mp h

/-- Replacing the stack by one computed from it. -/
theorem setStack_advance_ok {k : Stack → Except Fault Stack}
    (h : (getFrame >>= fun f => liftM (k f.stack) >>= fun stack => setStack stack >>= fun _ =>
      advance) ⟨f, s⟩ = .ok u a') :
    ∃ stack, k f.stack = .ok stack ∧ a' = ⟨f.next stack, s⟩ := by
  rw [getFrame_bind] at h
  obtain ⟨stack, hstack, h⟩ := liftExcept_bind_ok h
  rw [setStack, modifyFrame_bind] at h
  exact ⟨stack, hstack, advance_ok_iff.mp h⟩

/-- Ending the frame with a part of memory as its output. -/
theorem finish_ok {exit : Exit}
    (h : (pop >>= fun offset => pop >>= fun size => readMemory offset size >>= fun output =>
      modifyFrame fun f => { f with output, mode := .exited exit }) ⟨f, s⟩ = .ok u a') :
    ∃ offset size rest, f.stack = offset :: size :: rest ∧
      a' = ⟨{ f with
        stack := rest, output := f.memory.read offset size, mode := .exited exit }, s⟩ := by
  obtain ⟨offset, rest₁, hstack, h⟩ := pop_bind_ok h
  obtain ⟨size, rest, rfl, h⟩ := pop_bind_ok h
  rw [readMemory_bind] at h
  exact ⟨offset, size, rest, hstack, modifyFrame_ok_iff.mp h⟩

/-- Copying bytes from somewhere that `R` allows to be asked. -/
theorem copyPadded_ok {R : State → State → Prop} {source : StepM ByteArray} {bytes : ByteArray}
    (hR : R s s) (hsource : ∀ f₁ b a₁, source ⟨f₁, s⟩ = .ok b a₁ → f₁.message = f.message →
      b = bytes ∧ ∃ s', R s s' ∧ a₁ = ⟨f₁, s'⟩)
    (h : copyPadded source ⟨f, s⟩ = .ok u a') :
    ∃ memoryOffset offset length rest memory s',
      f.stack = memoryOffset :: offset :: length :: rest ∧ R s s' ∧
      CopiesPadded bytes memoryOffset offset length f.memory memory ∧
      a' = ⟨{ f.next rest with memory }, s'⟩ := by
  -- the three operands are taken off in any case
  obtain ⟨memoryOffset, rest₁, hstack₁, h⟩ := pop_bind_ok h
  obtain ⟨offset, rest₂, rfl, h⟩ := pop_bind_ok h
  obtain ⟨length, rest, rfl, h⟩ := pop_bind_ok h
  by_cases hlength : 0 < length
  · simp only [if_pos hlength] at h
    obtain ⟨b, a₄, hb, h⟩ := bind_ok_iff.mp h
    obtain ⟨rfl, s', hs', rfl⟩ := hsource _ b a₄ hb rfl
    obtain ⟨data, hdata, h⟩ := liftExcept_bind_ok h
    obtain ⟨_, a₆, hwrite, h⟩ := bind_ok_iff.mp h
    cases writeMemory_ok hwrite
    refine ⟨memoryOffset, offset, length, rest, _, s', hstack₁, hs', ?_, advance_ok_iff.mp h⟩
    rw [CopiesPadded, if_pos hlength]
    exact ⟨data, hdata, rfl⟩
  · -- a copy of nothing asks for nothing, and leaves memory alone
    simp only [if_neg hlength] at h
    refine ⟨memoryOffset, offset, length, rest, f.memory, s, hstack₁, hR, ?_, advance_ok_iff.mp h⟩
    rw [CopiesPadded, if_neg hlength]

/-- Bytes that the frame was started with. -/
theorem messageBytes_ok (g : Message → ByteArray) (f₁ : Frame) (b : ByteArray) (a₁ : Activation)
    (hb : (getFrame >>= fun f => pure (g f.message)) ⟨f₁, s⟩ = .ok b a₁)
    (hf : f₁.message = f.message) : b = g f.message ∧ ∃ s', s = s' ∧ a₁ = ⟨f₁, s'⟩ := by
  obtain ⟨rfl, rfl⟩ := EStateM.Result.ok.inj hb
  exact ⟨congrArg g hf, s, rfl, rfl⟩

/-- Bytes of an account's code, which may have to be fetched. -/
theorem accountBytes_ok (a : Address) (f₁ : Frame) (b : ByteArray) (a₁ : Activation)
    (hb : (liftM (World.code a) : StepM ByteArray) ⟨f₁, s⟩ = .ok b a₁)
    (_ : f₁.message = f.message) :
    b = (s.view.get a).code ∧ ∃ s', Quiet s s' ∧ a₁ = ⟨f₁, s'⟩ := by
  obtain ⟨s₁, hcode, rfl⟩ := liftAction_ok_iff.mp hb
  exact ⟨(World.code_mirrors a).answer hcode, s₁, (World.code_mirrors a).quiet hcode, rfl⟩

/-- A copy of the data of the last call stays within it. -/
theorem copyReturnData_ok (h : copyReturnData ⟨f, s⟩ = .ok u a') :
    ∃ memoryOffset offset length rest, f.stack = memoryOffset :: offset :: length :: rest ∧
      offset + length ≤ f.returnData.size ∧
      a' = ⟨{ f.next rest with
        memory := f.memory.overwrite memoryOffset
          (Bytes.slice f.returnData offset (offset + length)) }, s⟩ := by
  obtain ⟨memoryOffset, rest₁, hstack₁, h⟩ := pop_bind_ok h
  obtain ⟨offset, rest₂, rfl, h⟩ := pop_bind_ok h
  obtain ⟨length, rest, rfl, h⟩ := pop_bind_ok h
  rw [getFrame_bind] at h
  refine ⟨memoryOffset, offset, length, rest, hstack₁, ?_⟩
  by_cases hsize : (f.returnData.size : Int) < offset + length
  · simp only [if_pos hsize] at h
    -- the check stands before the write, and to fail is to stop there
    obtain ⟨_, a₅, hfail, -⟩ := bind_ok_iff.mp h
    exact absurd hfail throw_ne_ok
  · simp only [if_neg hsize] at h
    obtain ⟨_, a₅, hwrite, h⟩ := bind_ok_iff.mp h
    cases writeMemory_ok hwrite
    refine ⟨Int.not_lt.mp hsize, ?_⟩
    rw [advance_ok_iff.mp h]
    dsimp only [Frame.next]

/-- A jump goes to a valid destination. -/
theorem jumpTo_ok {dest : Word} (h : jumpTo dest ⟨f, s⟩ = .ok u a') :
    f.message.code.validJumpDest dest ∧ a' = ⟨{ f with pc := dest }, s⟩ := by
  rw [jumpTo, getFrame_bind] at h
  by_cases hvalid : f.message.code.validJumpDest dest = true
  · simp only [if_pos hvalid] at h
    exact ⟨hvalid, modifyFrame_ok_iff.mp h⟩
  · simp only [if_neg hvalid] at h
    obtain ⟨_, a₁, hfail, -⟩ := bind_ok_iff.mp h
    exact absurd hfail throw_ne_ok

end Parts

/-- **What an instruction does** when it ends with a value. -/
theorem executes_of_run {ctx : Context} {forwarded : Int} {op : Opcode} {f f' : Frame}
    {s s' : State} (h : run ctx forwarded op ⟨f, s⟩ = .ok () ⟨f', s'⟩) :
    Executes ctx forwarded op f s f' s' := by
  cases op with
  | stop =>
    cases setMode_ok_iff.mp h
    exact .stop
  -- Words: the operands come off the front of the stack and the result replaces the last of them.
  | unary op =>
    obtain ⟨x, rest, hstack, h⟩ := peek_bind_ok h
    cases poke_advance_ok hstack h
    exact .unary hstack
  | binary op =>
    obtain ⟨x, rest₁, hstack, h⟩ := pop_bind_ok h
    obtain ⟨y, rest, rfl, h⟩ := peek_bind_ok h
    obtain ⟨_, hcheck, h⟩ := liftExcept_bind_ok h
    cases poke_advance_ok rfl h
    exact .binary hstack hcheck
  | ternary op =>
    obtain ⟨x, rest₁, hstack, h⟩ := pop_bind_ok h
    obtain ⟨y, rest₂, rfl, h⟩ := pop_bind_ok h
    obtain ⟨z, rest, rfl, h⟩ := peek_bind_ok h
    cases poke_advance_ok rfl h
    exact .ternary hstack
  | keccak =>
    obtain ⟨offset, rest₁, hstack, h⟩ := pop_bind_ok h
    obtain ⟨size, rest, rfl, h⟩ := peek_bind_ok h
    rw [readMemory_bind] at h
    cases poke_advance_ok rfl h
    exact .keccak hstack
  | environment item =>
    rw [run, getFrame_bind] at h
    cases push_advance_ok h
    exact .environment
  -- Questions to the state, answered as its view says; asking may fetch an account, quietly.
  | account query =>
    obtain ⟨x, rest, hstack, h⟩ := peek_bind_ok h
    obtain ⟨v, s₁, hquery, h⟩ := liftAction_bind_ok h
    cases poke_advance_ok hstack h
    obtain rfl := (queryAccount_mirrors _ query).answer hquery
    exact .account hstack ((queryAccount_mirrors _ query).quiet hquery)
  | selfBalance =>
    rw [run, getFrame_bind] at h
    obtain ⟨v, s₁, hbalance, h⟩ := liftAction_bind_ok h
    cases push_advance_ok h
    obtain rfl := (World.balance_mirrors _).answer hbalance
    exact .selfBalance ((World.balance_mirrors _).quiet hbalance)
  -- Data the frame was started with, and copies of it to memory.
  | callDataLoad =>
    rw [run, getFrame_bind] at h
    obtain ⟨x, rest, hstack, h⟩ := peek_bind_ok h
    cases poke_advance_ok hstack h
    exact .callDataLoad hstack
  | blockHash =>
    obtain ⟨x, rest, hstack, h⟩ := peek_bind_ok h
    cases poke_advance_ok hstack h
    exact .blockHash hstack
  | copy source =>
    cases source with
    | callData =>
      obtain ⟨memoryOffset, offset, length, rest, memory, s₁, hstack, rfl, hcopy, hend⟩ :=
        copyPadded_ok (R := Eq) rfl (messageBytes_ok Message.input) h
      cases hend
      exact .copy hstack (by decide) hcopy
    | code =>
      obtain ⟨memoryOffset, offset, length, rest, memory, s₁, hstack, rfl, hcopy, hend⟩ :=
        copyPadded_ok (R := Eq) rfl (messageBytes_ok fun m => m.code.bytes) h
      cases hend
      exact .copy hstack (by decide) hcopy
    | returnData =>
      obtain ⟨memoryOffset, offset, length, rest, hstack, hsize, hend⟩ := copyReturnData_ok h
      cases hend
      exact .copyReturnData hstack hsize
  | accountCodeCopy =>
    obtain ⟨x, rest₁, hstack₁, h⟩ := pop_bind_ok h
    obtain ⟨memoryOffset, offset, length, rest, memory, s₁, rfl, hquiet, hcopy, hend⟩ :=
      copyPadded_ok (f := { f with stack := rest₁ }) (Std.Refl.refl s)
        (accountBytes_ok (Address.ofWord x)) h
    cases hend
    exact .accountCodeCopy hstack₁ hquiet hcopy
  -- The frame's own stack, memory and program counter, and storage.
  | pop =>
    obtain ⟨_, a₁, hdiscard, h⟩ := bind_ok_iff.mp h
    obtain ⟨x, a₂, hpop, hpure⟩ := bind_ok_iff.mp hdiscard
    obtain ⟨rest, hstack, rfl⟩ := pop_ok hpop
    obtain ⟨-, rfl⟩ := pure_ok_iff.mp hpure
    cases advance_ok_iff.mp h
    exact .pop hstack
  | memoryLoad =>
    rw [run, getFrame_bind] at h
    obtain ⟨x, rest, hstack, h⟩ := peek_bind_ok h
    cases poke_advance_ok hstack h
    exact .memoryLoad hstack
  | memoryStore =>
    obtain ⟨offset, rest₁, hstack, h⟩ := pop_bind_ok h
    obtain ⟨data, a₂, hpop, h⟩ := bind_ok_iff.mp h
    obtain ⟨v, rest, rfl, hdata, rfl⟩ := popBytes_ok hpop
    obtain ⟨_, a₃, hwrite, h⟩ := bind_ok_iff.mp h
    -- the word that was taken has the size that is written
    rw [funext fun m : Memory => m.writeWord_eq_write (Bytes.size_of_ofWord? hdata)] at hwrite
    cases writeMemory_ok hwrite
    cases advance_ok_iff.mp h
    exact .memoryStore hstack hdata
  | memoryStoreByte =>
    obtain ⟨offset, rest₁, hstack, h⟩ := pop_bind_ok h
    obtain ⟨v, rest, rfl, h⟩ := pop_bind_ok h
    rw [getFrame_bind] at h
    obtain ⟨i, hindex, h⟩ := liftExcept_bind_ok h
    rw [modifyFrame_bind] at h
    cases advance_ok_iff.mp h
    exact .memoryStoreByte hstack hindex
  | storageLoad =>
    rw [run, getFrame_bind] at h
    obtain ⟨key, rest, hstack, h⟩ := peek_bind_ok h
    obtain ⟨v, s₁, hload, h⟩ := liftAction_bind_ok h
    cases poke_advance_ok hstack h
    obtain rfl := (World.storage_mirrors _ key).answer hload
    exact .storageLoad hstack ((World.storage_mirrors _ key).quiet hload)
  | storageStore =>
    obtain ⟨key, rest₁, hstack, h⟩ := pop_bind_ok h
    obtain ⟨value, rest, rfl, h⟩ := pop_bind_ok h
    rw [getFrame_bind] at h
    obtain ⟨_, s₁, hstore, h⟩ := liftAction_bind_ok h
    cases advance_ok_iff.mp h
    obtain ⟨hgrows, hview⟩ := (storeSlot_mirrors _ key value).ok hstore
    exact .storageStore hstack hgrows hview
  | jump =>
    obtain ⟨dest, rest, hstack, h⟩ := pop_bind_ok h
    obtain ⟨hvalid, hend⟩ := jumpTo_ok h
    cases hend
    exact .jump hstack hvalid
  | jumpIf =>
    obtain ⟨dest, rest₁, hstack, h⟩ := pop_bind_ok h
    obtain ⟨condition, rest, rfl, h⟩ := pop_bind_ok h
    by_cases hcondition : condition = 0
    · simp only [hcondition, ne_eq, not_true_eq_false, if_false] at h
      cases advance_ok_iff.mp h
      exact .jumpIfSkipped (hcondition ▸ hstack)
    · simp only [ne_eq, hcondition, not_false_eq_true, if_true] at h
      obtain ⟨hvalid, hend⟩ := jumpTo_ok h
      cases hend
      exact .jumpIfTaken hstack hcondition hvalid
  | jumpDest =>
    cases advance_ok_iff.mp h
    exact .jumpDest
  | push n =>
    rw [run, modifyFrame_ok_iff] at h
    cases h
    exact .push
  | dup n =>
    obtain ⟨stack, hdup, hend⟩ := setStack_advance_ok (k := fun st => st.dup n.val) h
    cases hend
    exact .dup hdup
  | swap n =>
    obtain ⟨stack, hswap, hend⟩ := setStack_advance_ok (k := fun st => st.swap (n.val + 1)) h
    cases hend
    exact .swap hswap
  -- What leaves a trace outside the frame or hands over to another one.
  | log n =>
    obtain ⟨offset, rest₁, hstack, h⟩ := pop_bind_ok h
    obtain ⟨size, rest₂, rfl, h⟩ := pop_bind_ok h
    obtain ⟨topics, a₃, htopics, h⟩ := bind_ok_iff.mp h
    obtain ⟨words, rest, rfl, hlength, hwords, rfl⟩ := popTopics_ok htopics
    rw [readMemory_bind] at h
    rw [getFrame_bind] at h
    obtain ⟨_, s₁, hlog, h⟩ := liftAction_bind_ok h
    cases advance_ok_iff.mp h
    have hmirrors := Substate.addLog_mirrors ⟨f.message.self, topics, f.memory.read offset size⟩
    exact .log hstack hlength hwords (hmirrors.grows hlog) (hmirrors.view_eq hlog)
  | create kind =>
    obtain ⟨value, rest₁, hstack, h⟩ := pop_bind_ok h
    obtain ⟨inputOffset, rest₂, rfl, h⟩ := pop_bind_ok h
    obtain ⟨inputSize, rest₃, rfl, h⟩ := pop_bind_ok h
    cases kind with
    | create =>
      cases setMode_ok_iff.mp h
      exact .create hstack (by simp)
    | create2 =>
      obtain ⟨salt, a₄, hsalt, h⟩ := bind_ok_iff.mp h
      -- the salt is popped by mapping into an option
      rw [map_eq_pure_bind] at hsalt
      obtain ⟨v, a₅, hpop, hpure⟩ := bind_ok_iff.mp hsalt
      obtain ⟨rest, rfl, rfl⟩ := pop_ok hpop
      obtain ⟨rfl, rfl⟩ := pure_ok_iff.mp hpure
      cases setMode_ok_iff.mp h
      exact .create hstack (by simp)
  | call kind =>
    rw [run, getFrame_bind] at h
    obtain ⟨request, hrequest, h⟩ := liftExcept_bind_ok h
    cases modifyFrame_ok_iff.mp h
    exact .call hrequest
  | «return» =>
    obtain ⟨offset, size, rest, hstack, hend⟩ := finish_ok h
    cases hend
    exact .return hstack
  | revert =>
    obtain ⟨offset, size, rest, hstack, hend⟩ := finish_ok h
    cases hend
    exact .revert hstack
  | invalid => exact absurd h throw_ne_ok
  | selfDestruct =>
    obtain ⟨x, rest, hstack, h⟩ := pop_bind_ok h
    rw [getFrame_bind] at h
    obtain ⟨_, s₁, hdestruct, h⟩ := liftAction_bind_ok h
    cases setMode_ok_iff.mp h
    obtain ⟨hgrows, hview⟩ := (selfDestruct_mirrors _ _).ok hdestruct
    exact .selfDestruct hstack hgrows hview

/-! ### Failures of instructions -/

/-- A failing instruction takes words from the stack, and that is all it does. -/
structure Untouched (a a' : Activation) : Prop where
  state : a'.state = a.state
  frame : ∃ stack, stack <:+ a.frame.stack ∧ a'.frame = { a.frame with stack }

/-- A failing instruction takes no gas. -/
theorem Untouched.gas {a a' : Activation} (h : Untouched a a') : a'.frame.gas = a.frame.gas := by
  obtain ⟨stack, -, hframe⟩ := h.frame
  rw [hframe]

/-- It does not change the message. -/
theorem Untouched.message {a a' : Activation} (h : Untouched a a') :
    a'.frame.message = a.frame.message := by
  obtain ⟨stack, -, hframe⟩ := h.frame
  rw [hframe]

instance : Std.Refl Untouched := ⟨fun a => ⟨rfl, a.frame.stack, List.suffix_rfl, rfl⟩⟩

instance : IsTrans Activation Untouched := by
  refine ⟨fun a₁ a₂ a₃ h h' => ⟨h'.state.trans h.state, ?_⟩⟩
  obtain ⟨stack₂, hsuffix₂, hframe₂⟩ := h.frame
  obtain ⟨stack₃, hsuffix₃, hframe₃⟩ := h'.frame
  rw [hframe₂] at hsuffix₃ hframe₃
  exact ⟨stack₃, hsuffix₃.trans hsuffix₂, hframe₃⟩

/-- Taking a word off is within what a failing instruction does. -/
theorem pop_untouched : Keeps Untouched pop := by
  rintro ⟨f, s⟩ v a' h
  obtain ⟨rest, hstack, rfl⟩ := pop_ok h
  exact ⟨rfl, rest, ⟨[v], hstack.symm⟩, rfl⟩

/-- An instruction that takes a word off first, and then fails. -/
theorem pop_bind_fails {α : Type} {g : Word → StepM α} (hg : ∀ v, Fails Untouched (g v)) :
    Fails Untouched (pop >>= g) :=
  NeverFails.closed.pop.fails.bind pop_untouched hg

/-- A jump to an invalid destination fails before the frame has moved. -/
theorem jumpTo_fails (dest : Word) : Fails Untouched (jumpTo dest) := by
  refine NeverFails.getFrame.fails.bind ?_ fun f => ?_
  · rintro ⟨f, s⟩ f₁ a' h
    obtain ⟨-, rfl⟩ := getFrame_ok h
    exact Std.Refl.refl _
  · split
    · exact (NeverFails.modifyFrame _).fails
    · exact (Fails.fail .invalidJump).bind (Keeps.throw _) fun _ => (NeverFails.modifyFrame _).fails

/-- A copy of data that is not there fails before memory has changed. -/
theorem copyReturnData_fails : Fails Untouched copyReturnData := by
  refine pop_bind_fails fun memoryOffset => pop_bind_fails fun offset =>
    pop_bind_fails fun length => NeverFails.getFrame.fails.bind ?_ fun f => ?_
  · rintro ⟨f, s⟩ f₁ a' h
    obtain ⟨-, rfl⟩ := getFrame_ok h
    exact Std.Refl.refl _
  · -- the write is on the way in both branches
    have hwrite : NeverFails (writeMemory memoryOffset
        (Bytes.slice f.returnData offset (offset + length)) >>= fun _ => advance) :=
      (NeverFails.closed.writeMemory _ _).bind fun _ => NeverFails.closed.advance
    dsimp only
    split
    · exact (Fails.fail .invalidMemoryAccess).bind (Keeps.throw _) fun _ => hwrite.fails
    · exact hwrite.fails

/-- **An instruction that fails** has not touched the state, nor the gas of its frame. -/
theorem run_fails (ctx : Context) (forwarded : Int) (op : Opcode) :
    Fails Untouched (run ctx forwarded op) := by
  -- nearly all instructions end with a value or a fault
  cases h : mayFail op with
  | false =>
    refine (NeverFails.closed.run ctx forwarded fun hmay => ?_).fails
    cases hmay.symm.trans h
  | true =>
    -- the instructions that may fail, one by one
    unfold mayFail at h
    split at h
    · exact copyReturnData_fails
    · exact pop_bind_fails jumpTo_fails
    · refine pop_bind_fails fun dest => pop_bind_fails fun condition => ?_
      exact (jumpTo_fails dest).ite NeverFails.closed.advance.fails
    · exact Fails.fail _
    · cases h

end Step

end EvmCore
