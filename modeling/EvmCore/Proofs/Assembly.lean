import EvmCore.Step
import EvmCore.Proofs.Computation

/-!
# What a step is put together from

A step looks at its frame and changes it, takes values that the frame may lack, asks the state or
changes it, and fails. What holds of these few parts and is kept by putting one after the other
(`Step.Closed`) holds of every instruction (`Step.Closed.run`) and of a whole step
(`Step.Closed.phases`). So all properties of this kind share one pass through the instructions, and
likewise one through the ways to find a dynamic cost (`Gas.Closed.dynamic`).

What a part can do is said along with it. A change of the frame does not let it fail
(`Frame.Unfailed`), a value is missing for a reason that has nothing to do with the refund counter
(`Spares`), and a frame that fails does not do so by a refusal (`Failure.IsRefusal`).
-/

namespace EvmCore

/-! ### Values that may be missing -/

/-- Any fault but a refund counter that would fall below zero. -/
def Fault.SparesRefund : Fault → Prop
  | .negativeRefund _ _ => False
  | _ => True

/-- A value that is missing for a reason that has nothing to do with the refund
counter, if it is. -/
def Spares {α : Type} (x : Except Fault α) : Prop := ∀ ⦃e : Fault⦄, x = .error e → e.SparesRefund

namespace Spares

variable {α β : Type} {x : Except Fault α}

theorem ok (a : α) : Spares (.ok a) := nofun

theorem error {e : Fault} (h : e.SparesRefund) : Spares (.error e : Except Fault α) := by
  intro e' he
  cases he
  exact h

/-- In a sequence of values, the first one that is missing gives the reason. -/
theorem bind {g : α → Except Fault β} (hx : Spares x) (hg : ∀ a, Spares (g a)) :
    Spares (x >>= g) := by
  cases x with
  | ok a => exact hg a
  | error e => exact error (hx rfl)

theorem ite {c : Prop} [Decidable c] {y : Except Fault α} (hx : Spares x) (hy : Spares y) :
    Spares (if c then x else y) := by
  split
  · exact hx
  · exact hy

end Spares

namespace Stack

theorem pop_spares (stack : Stack) : Spares stack.pop := by
  cases stack with
  | nil => exact .error trivial
  | cons v rest => exact .ok _

theorem peek_spares (stack : Stack) : Spares stack.peek := by
  cases stack with
  | nil => exact .error trivial
  | cons v rest => exact .ok _

theorem poke_spares (stack : Stack) (v : Word) : Spares (stack.poke v) := by
  cases stack with
  | nil => exact .error trivial
  | cons w rest => exact .ok _

theorem back_spares (stack : Stack) (n : Nat) : Spares (stack.back n) := by
  rw [back]
  cases stack[n]? with
  | some v => exact .ok v
  | none => exact .error trivial

theorem backAddress_spares (stack : Stack) (n : Nat) : Spares (stack.backAddress n) := by
  have hback := stack.back_spares n
  rw [backAddress]
  cases hv : stack.back n with
  | ok v => exact .ok _
  | error e => exact .error (hback hv)

theorem dup_spares (stack : Stack) (n : Nat) : Spares (stack.dup n) := by
  rw [dup]
  cases stack[stack.place n]? with
  | some v => exact .ok _
  | none => exact .error trivial

theorem swap_spares (stack : Stack) (n : Nat) : Spares (stack.swap n) := by
  rw [swap]
  split
  · exact .ok _
  · exact .error trivial

end Stack

/-- A size may be negative, or larger than what can be stored or counted. -/
theorem Bytes.checkedSize_spares (size : Int) : Spares (checkedSize size) :=
  .ite (.error trivial) (.ite (.error trivial) (.ite (.error trivial) (.ok _)))

/-- Padding fails only where its size is refused. -/
theorem Bytes.padSlice?_spares (b : ByteArray) (start size : Int) :
    Spares (padSlice? b start size) :=
  (checkedSize_spares _).bind fun _ => .ok _

namespace Memory

variable (m : Memory) (offset : Int)

/-- A write fails only where it would leave the memory. -/
theorem checkWrite_spares (size : Nat) : Spares (m.checkWrite offset size) :=
  .ite (.ok ()) (.error trivial)

theorem write_spares (data : ByteArray) : Spares (m.write offset data) :=
  (m.checkWrite_spares offset data.size).bind fun _ => .ok _

theorem writeWord_spares (data : ByteArray) : Spares (m.writeWord offset data) :=
  (m.checkWrite_spares offset 32).bind fun _ => .ok _

/-- Memory may be asked to grow beyond what can be stored. -/
theorem resize_spares (size : Int) : Spares (m.resize size) :=
  (Bytes.checkedSize_spares _).bind fun _ => .ok _

theorem byteIndex_spares : Spares (m.byteIndex offset) := .ite (.ok _) (.error trivial)

end Memory

/-- Some instructions refuse operands of the wrong sign, all others take any. -/
theorem Binary.check_spares (op : Binary) (x y : Word) : Spares (op.check x y) := by
  cases op with
  -- one comparison, made before the result is computed
  | shl | shr | sar | signExtend | exp | sdiv | smod => exact .ite (.error trivial) (.ok ())
  | _ => exact .ok ()

/-- What an instruction needs of memory is found from operands, which may be missing. -/
theorem MemoryUse.size?_spares (use : MemoryUse) (stack : Stack) : Spares (use.size? stack) := by
  have hback := stack.back_spares
  cases use with
  | none => exact .ok _
  | region offset length => exact (hback _).bind fun _ => (hback _).bind fun _ => .ok _
  | fixed offset length => exact (hback _).bind fun _ => .ok _
  | callRegions input =>
    -- the second region is looked at only if the first one can be measured
    refine (hback _).bind fun x => (hback _).bind fun y => ?_
    cases Gas.memorySize? x y with
    | none => exact .ok _
    | some output =>
      refine (hback _).bind fun z => (hback _).bind fun w => ?_
      cases Gas.memorySize? z w with
      | none => exact .ok _
      | some input => exact .ok _

/-- The same for the operands of a call, of which two kinds have one more. -/
theorem Step.callRequest_spares (kind : CallKind) (f : Frame) (forwarded : Int) :
    Spares (callRequest kind f forwarded) := by
  have hback := f.stack.back_spares
  refine (f.stack.backAddress_spares 1).bind fun target => ?_
  cases kind with
  | call | callCode =>
    -- the value stands before the two regions
    exact (hback 2).bind fun _ => (hback 3).bind fun _ => (hback 4).bind fun _ =>
      (hback 5).bind fun _ => (hback 6).bind fun _ => .ok _
  | delegateCall | staticCall =>
    exact (hback 2).bind fun _ => (hback 3).bind fun _ => (hback 4).bind fun _ =>
      (hback 5).bind fun _ => .ok _

/-! ### The dynamic cost -/

/-- How many operands are looked at to find a dynamic cost. -/
def DynamicCost.operands : DynamicCost → Nat
  | .none | .memory => 0
  | .perWord _ length => length + 1
  | .account | .storageLoad | .selfDestruct => 1
  | .exp | .log _ | .storageStore => 2
  | .accountCodeCopy => 4
  | .call .call | .call .callCode => 3
  | .call .delegateCall | .call .staticCall => 2

namespace Gas

/-- `P` holds of all that may be asked to find a dynamic cost, the top `n` words of the stack among
it, and is kept by asking one after the other. -/
structure Closed (stack : Stack) (n : Nat) (P : (α : Type) → Action α → Prop) : Prop where
  pure : ∀ {α : Type} (v : α), P α (pure v)
  bind : ∀ {α β : Type} {x : Action α} {g : α → Action β}, P α x → (∀ v, P β (g v)) → P β (x >>= g)
  back : ∀ {i : Nat}, i < n → P Word (liftM (stack.back i))
  backAddress : ∀ {i : Nat}, i < n → P Address (liftM (stack.backAddress i))
  warmAccount : ∀ a, P Bool (Substate.warmAccount a)
  warmSlot : ∀ slot, P Bool (Substate.warmSlot slot)
  storage : ∀ a key, P Word (World.storage a key)
  initial : ∀ a key, P Word (World.initial a key)
  isEmpty : ∀ a, P Bool (World.isEmpty a)
  balance : ∀ a, P Int (World.balance a)

namespace Closed

variable {P : (α : Type) → Action α → Prop} {frame : Frame} {n : Nat}

/-- Whether an account is cold is one question. -/
theorem accountSurcharge (h : Closed frame.stack n P) (a : Address) :
    P Int (Gas.accountSurcharge a) :=
  h.bind (h.warmAccount a) fun _ => h.pure _

/-- What a call is charged depends on the gas that is asked for, the topmost operand. -/
theorem callCharge (h : Closed frame.stack n P) (hn : 0 < n) (base : Int) :
    P (Option Charge) (Gas.callCharge frame base) :=
  h.bind (h.back hn) fun _ => h.pure _

/-- A cost by the word depends on a length among the operands, once the memory can be paid for. -/
theorem perWordCost (h : Closed frame.stack n P) {length : Nat} (hlength : length < n)
    (size price : Int) :
    P (Option Int) (Gas.perWordCost frame size price length) := by
  rw [Gas.perWordCost]
  split
  · -- a length is looked at only if there is gas for the memory
    exact h.bind (h.back hlength) fun _ => h.pure _
  · exact h.pure _

/-- **What holds of the questions holds of finding a dynamic cost.** -/
theorem dynamic {cost : DynamicCost} (h : Closed frame.stack cost.operands P) (size : Int) :
    P (Option Charge) (Gas.dynamic cost frame size) := by
  cases cost with
  | none => exact h.pure _
  | memory => exact h.pure _
  | perWord price length =>
    exact h.bind (h.perWordCost (Nat.lt_succ_self length) _ _) fun _ => h.pure _
  | exp => exact h.bind (h.back (by decide)) fun _ => h.pure _
  | log topics =>
    rw [Gas.dynamic]
    split
    · exact h.bind (h.back Nat.one_lt_two) fun _ => h.pure _
    · exact h.pure _
  | account =>
    exact h.bind (h.backAddress (by decide)) fun a => h.bind (h.accountSurcharge a) fun _ =>
      h.pure _
  | accountCodeCopy =>
    refine h.bind (h.perWordCost (by decide) _ _) fun gas => ?_
    split
    · -- the price for copying comes before the one for the account
      exact h.bind (h.backAddress (by decide)) fun a => h.bind (h.accountSurcharge a) fun _ =>
        h.pure _
    · exact h.pure _
  | storageLoad =>
    exact h.bind (h.back (by decide)) fun key => h.bind (h.warmSlot _) fun _ => h.pure _
  | storageStore =>
    rw [Gas.dynamic]
    split
    · exact h.pure _
    · -- two operands, whether the slot is warm, and what it held and holds
      exact h.bind (h.back (by decide)) fun key => h.bind (h.back (by decide)) fun _ =>
        h.bind (h.warmSlot _) fun _ => h.bind (h.storage _ key) fun _ =>
          h.bind (h.initial _ key) fun _ => h.pure _
  | selfDestruct =>
    refine h.bind (h.backAddress (by decide)) fun beneficiary => h.bind (h.warmAccount _) fun _ =>
      h.bind (h.isEmpty _) fun empty => ?_
    dsimp only
    split
    · -- only an empty beneficiary makes it matter whether there is a balance
      refine h.bind (h.balance _) fun _ => ?_
      split
      · exact h.pure _
      · exact h.pure _
    · exact h.pure _
  | call kind =>
    cases kind with
    | call =>
      refine h.bind (h.backAddress (by decide)) fun callee =>
        h.bind (h.back (by decide)) fun value => h.bind (h.accountSurcharge callee) fun access => ?_
      -- the callee is looked at only if value goes there, and the memory
      -- decides what comes after that
      cases hmemory : growth? frame size with
      | none =>
        dsimp only
        split
        · exact h.bind (h.isEmpty callee) fun _ => h.bind (h.pure _) fun _ => h.pure _
        · exact h.bind (h.pure _) fun _ => h.pure _
      | some memory =>
        dsimp only
        split
        · exact h.bind (h.isEmpty callee) fun _ => h.bind (h.pure _) fun _ =>
            h.callCharge (by decide) _
        · exact h.bind (h.pure _) fun _ => h.callCharge (by decide) _
    | callCode =>
      refine h.bind (h.backAddress (by decide)) fun callee =>
        h.bind (h.accountSurcharge callee) fun _ => ?_
      split
      · -- whether value is sent is asked after the memory was paid for
        exact h.bind (h.back (by decide)) fun _ => h.callCharge (by decide) _
      · exact h.pure _
    | delegateCall | staticCall =>
      refine h.bind (h.backAddress (by decide)) fun callee =>
        h.bind (h.accountSurcharge callee) fun _ => ?_
      split
      · exact h.callCharge (by decide) _
      · exact h.pure _

end Closed

end Gas

/-! ### The parts -/

/-- A frame that did not fail. -/
def Frame.Unfailed (f : Frame) : Prop := ∀ e, f.mode ≠ .exited (.failed e)

/-- A call or a creation is refused before anything was done, and its gas comes back. -/
def Failure.IsRefusal : Failure → Prop
  | .depth | .insufficientBalance | .nonceOverflow => True
  | _ => False

namespace Step

/-- To pay is to check that there is enough gas, and to take it. -/
theorem useGas_eq (gas : Int) : useGas gas = getFrame >>= fun f =>
    if f.gas < gas then fail .outOfGas else modifyFrame fun f => { f with gas := f.gas - gas } := by
  funext ⟨f, s⟩
  have hframe : getFrame ⟨f, s⟩ = .ok f ⟨f, s⟩ := rfl
  rw [useGas, bind_of_ok hframe, bind_of_ok hframe, Frame.useGas?]
  split
  · rfl
  · rfl

/-- To change the memory is to find out what becomes of it, and to put that in its place. -/
theorem modifyMemory_eq (g : Memory → Except Fault Memory) : modifyMemory g = getFrame >>= fun f =>
    liftM (g f.memory) >>= fun memory => modifyFrame fun f => { f with memory } := by
  funext ⟨f, s⟩
  change _ = ((liftM (g f.memory) : StepM Memory) >>= fun memory =>
    modifyFrame fun f => { f with memory }) ⟨f, s⟩
  rw [modifyMemory]
  cases g f.memory with
  | ok memory => rfl
  | error e => rfl

/-- What a step asks of the state or changes there. -/
inductive Asks : {α : Type} → Action α → Prop
  | query (a : Address) (query : AccountQuery) : Asks (queryAccount a query)
  | balance (a : Address) : Asks (World.balance a)
  | code (a : Address) : Asks (World.code a)
  | storage (a : Address) (key : Word) : Asks (World.storage a key)
  | storeSlot (a : Address) (key value : Word) : Asks (storeSlot a key value)
  | addLog (log : Log) : Asks (Substate.addLog log)
  | selfDestruct (self beneficiary : Address) : Asks (selfDestruct self beneficiary)
  | dynamic (cost : DynamicCost) (frame : Frame) (size : Int) : Asks (Gas.dynamic cost frame size)

/-- `P` holds of the parts of a step that do not fail, and is kept by putting
one after the other. -/
structure Closed (P : (α : Type) → StepM α → Prop) : Prop where
  pure : ∀ {α : Type} (v : α), P α (pure v)
  bind : ∀ {α β : Type} {x : StepM α} {g : α → StepM β}, P α x → (∀ v, P β (g v)) → P β (x >>= g)
  getFrame : P Frame getFrame
  modifyFrame : ∀ {g : Frame → Frame}, (∀ f : Frame, f.Unfailed → (g f).Unfailed) →
    P Unit (modifyFrame g)
  value : ∀ {α : Type} {x : Except Fault α}, Spares x → P α (liftM x)
  action : ∀ {α : Type} {x : Action α}, Asks x → P α (liftM x)

/-- `P` holds of every failure that a frame may come to by itself. -/
def AtFailures (P : (α : Type) → StepM α → Prop) : Prop :=
  ∀ {α : Type} (e : Failure), ¬e.IsRefusal → P α (fail e)

/-- The instructions that can fail once they are run. -/
def mayFail : Opcode → Bool
  | .copy .returnData | .jump | .jumpIf | .invalid => true
  | _ => false

namespace Closed

variable {P : (α : Type) → StepM α → Prop} {α : Type}

theorem ite {c : Prop} [Decidable c] {x y : StepM α} (hx : P α x) (hy : P α y) :
    P α (if c then x else y) := by
  split
  · exact hx
  · exact hy

/-- A fault is a value that is missing. -/
theorem fault (h : Closed P) {e : Fault} (he : e.SparesRefund) : P α (throw (.fault e)) :=
  h.value (x := .error e) (.error he)

/-- Any change of the frame but one of its mode. -/
theorem sameMode (h : Closed P) {g : Frame → Frame} (hg : ∀ f, (g f).mode = f.mode) :
    P Unit (Step.modifyFrame g) := by
  refine h.modifyFrame fun f hf e => ?_
  rw [hg]
  exact hf e

/-- A frame that is set to a mode has not failed by that, if the mode is not that of a failure. -/
theorem setMode (h : Closed P) {mode : Mode} (hmode : ∀ e, mode ≠ .exited (.failed e)) :
    P Unit (Step.setMode mode) :=
  h.modifyFrame fun _ _ => hmode

theorem advance (h : Closed P) : P Unit Step.advance := h.sameMode fun _ => rfl

theorem setStack (h : Closed P) (stack : Stack) : P Unit (Step.setStack stack) :=
  h.sameMode fun _ => rfl

theorem push (h : Closed P) (v : Word) : P Unit (Step.push v) := h.sameMode fun _ => rfl

/-- A pop is a look at the frame, a word that may be missing, and a shorter stack. -/
theorem pop (h : Closed P) : P Word Step.pop :=
  h.bind h.getFrame fun f => h.bind (h.value f.stack.pop_spares) fun _ =>
    h.bind (h.setStack _) fun _ => h.pure _

/-- A word that was popped may lie outside the range in which it can be written as bytes. -/
theorem popBytes (h : Closed P) : P ByteArray Step.popBytes := by
  refine h.bind h.pop fun v => ?_
  cases Bytes.ofWord? v with
  | some b => exact h.pure b
  | none => exact h.fault trivial

theorem popTopics (h : Closed P) (n : Nat) : P (List ByteArray) (Step.popTopics n) := by
  induction n with
  | zero => exact h.pure _
  -- by induction on the number of topics, as they are popped
  | succ n ih => exact h.bind h.popBytes fun _ => h.bind ih fun _ => h.pure _

theorem peek (h : Closed P) : P Word Step.peek :=
  h.bind h.getFrame fun f => h.value f.stack.peek_spares

theorem poke (h : Closed P) (v : Word) : P Unit (Step.poke v) :=
  h.bind h.getFrame fun f => h.bind (h.value (f.stack.poke_spares v)) fun _ => h.setStack _

theorem readMemory (h : Closed P) (offset size : Int) : P ByteArray (Step.readMemory offset size) :=
  h.bind h.getFrame fun _ => h.pure _

/-- **A change of the memory** that may be refused for reasons of its own only. -/
theorem modifyMemory (h : Closed P) {g : Memory → Except Fault Memory} (hg : ∀ m, Spares (g m)) :
    P Unit (Step.modifyMemory g) := by
  rw [modifyMemory_eq]
  exact h.bind h.getFrame fun f => h.bind (h.value (hg f.memory)) fun _ => h.sameMode fun _ => rfl

theorem writeMemory (h : Closed P) (offset : Int) (data : ByteArray) :
    P Unit (Step.writeMemory offset data) :=
  h.modifyMemory fun m => m.write_spares offset data

/-- A copy with zeros past the end of its source, which may be asked of the state. -/
theorem copyPadded (h : Closed P) {source : StepM ByteArray} (hsource : P ByteArray source) :
    P Unit (Step.copyPadded source) := by
  refine h.bind h.pop fun _ => h.bind h.pop fun _ => h.bind h.pop fun _ => ite ?_ h.advance
  exact h.bind hsource fun b => h.bind (h.value (Bytes.padSlice?_spares b _ _)) fun _ =>
    h.bind (h.writeMemory _ _) fun _ => h.advance

/-- A copy of what a callee returned, which fails where that is too short. -/
theorem copyReturnData (h : Closed P) (hfail : AtFailures P) : P Unit Step.copyReturnData := by
  -- the write is on the way in both branches
  have hwrite (offset : Int) (data : ByteArray) :=
    h.bind (h.writeMemory offset data) fun _ => h.advance
  refine h.bind h.pop fun _ => h.bind h.pop fun _ => h.bind h.pop fun _ =>
    h.bind h.getFrame fun _ => ?_
  exact ite (h.bind (hfail .invalidMemoryAccess not_false) fun _ => hwrite _ _) (hwrite _ _)

/-- A jump, which fails where there is no place to go to. -/
theorem jumpTo (h : Closed P) (hfail : AtFailures P) (dest : Word) : P Unit (Step.jumpTo dest) := by
  refine h.bind h.getFrame fun _ => ite (h.sameMode fun _ => rfl) ?_
  exact h.bind (hfail .invalidJump not_false) fun _ => h.sameMode fun _ => rfl

/-- **What holds of the parts holds of every instruction.** -/
theorem run (h : Closed P) (ctx : Context) (forwarded : Int) {op : Opcode}
    (hfail : mayFail op = true → AtFailures P) : P Unit (Step.run ctx forwarded op) := by
  cases op with
  | stop => exact h.setMode fun _ hmode => by cases hmode
  -- Words.
  | unary op => exact h.bind h.peek fun _ => h.bind (h.poke _) fun _ => h.advance
  | binary op =>
    exact h.bind h.pop fun _ => h.bind h.peek fun _ =>
      h.bind (h.value (op.check_spares _ _)) fun _ => h.bind (h.poke _) fun _ => h.advance
  | ternary op =>
    exact h.bind h.pop fun _ => h.bind h.pop fun _ => h.bind h.peek fun _ =>
      h.bind (h.poke _) fun _ => h.advance
  | keccak =>
    exact h.bind h.pop fun _ => h.bind h.peek fun _ => h.bind (h.readMemory _ _) fun _ =>
      h.bind (h.poke _) fun _ => h.advance
  -- What the frame, the context and the accounts hold.
  | environment item => exact h.bind h.getFrame fun _ => h.bind (h.push _) fun _ => h.advance
  | account query =>
    exact h.bind h.peek fun _ => h.bind (h.action (.query _ query)) fun _ =>
      h.bind (h.poke _) fun _ => h.advance
  | selfBalance =>
    exact h.bind h.getFrame fun _ => h.bind (h.action (.balance _)) fun _ =>
      h.bind (h.push _) fun _ => h.advance
  | callDataLoad =>
    exact h.bind h.getFrame fun _ => h.bind h.peek fun _ => h.bind (h.poke _) fun _ => h.advance
  | blockHash => exact h.bind h.peek fun _ => h.bind (h.poke _) fun _ => h.advance
  | copy source =>
    cases source with
    | callData => exact h.copyPadded (h.bind h.getFrame fun _ => h.pure _)
    | code => exact h.copyPadded (h.bind h.getFrame fun _ => h.pure _)
    | returnData => exact h.copyReturnData (hfail rfl)
  | accountCodeCopy => exact h.bind h.pop fun _ => h.copyPadded (h.action (.code _))
  -- The frame's own stack, memory and program counter, and storage.
  | pop =>
    refine h.bind ?_ fun _ => h.advance
    rw [discard_eq]
    exact h.bind h.pop fun _ => h.pure _
  | memoryLoad =>
    exact h.bind h.getFrame fun _ => h.bind h.peek fun _ => h.bind (h.poke _) fun _ => h.advance
  | memoryStore =>
    exact h.bind h.pop fun offset => h.bind h.popBytes fun word =>
      h.bind (h.modifyMemory fun m => m.writeWord_spares offset word) fun _ => h.advance
  | memoryStoreByte =>
    exact h.bind h.pop fun _ => h.bind h.pop fun _ => h.bind h.getFrame fun f =>
      h.bind (h.value (f.memory.byteIndex_spares _)) fun _ =>
        h.bind (h.sameMode fun _ => rfl) fun _ => h.advance
  | storageLoad =>
    exact h.bind h.getFrame fun _ => h.bind h.peek fun _ =>
      h.bind (h.action (.storage _ _)) fun _ => h.bind (h.poke _) fun _ => h.advance
  | storageStore =>
    exact h.bind h.pop fun _ => h.bind h.pop fun _ => h.bind h.getFrame fun _ =>
      h.bind (h.action (.storeSlot _ _ _)) fun _ => h.advance
  | jump => exact h.bind h.pop fun _ => h.jumpTo (hfail rfl) _
  | jumpIf =>
    exact h.bind h.pop fun _ => h.bind h.pop fun _ => ite (h.jumpTo (hfail rfl) _) h.advance
  | jumpDest => exact h.advance
  | push n =>
    rw [Step.run]
    exact h.sameMode fun _ => rfl
  | dup n =>
    exact h.bind h.getFrame fun f => h.bind (h.value (f.stack.dup_spares _)) fun _ =>
      h.bind (h.setStack _) fun _ => h.advance
  | swap n =>
    exact h.bind h.getFrame fun f => h.bind (h.value (f.stack.swap_spares _)) fun _ =>
      h.bind (h.setStack _) fun _ => h.advance
  -- What leaves a trace outside the frame or hands over to another one.
  | log n =>
    exact h.bind h.pop fun _ => h.bind h.pop fun _ => h.bind (h.popTopics _) fun _ =>
      h.bind (h.readMemory _ _) fun _ => h.bind h.getFrame fun _ =>
        h.bind (h.action (.addLog _)) fun _ => h.advance
  | create kind =>
    refine h.bind h.pop fun _ => h.bind h.pop fun _ => h.bind h.pop fun _ => ?_
    cases kind with
    | create => exact h.setMode fun _ hmode => by cases hmode
    | create2 =>
      refine h.bind ?_ fun _ => h.setMode fun _ hmode => by cases hmode
      -- the salt is popped only by the second of the two
      rw [map_eq_pure_bind]
      exact h.bind h.pop fun _ => h.pure _
  | call kind =>
    exact h.bind h.getFrame fun f => h.bind (h.value (callRequest_spares kind f forwarded)) fun _ =>
      h.modifyFrame fun _ _ _ => Mode.noConfusion
  | «return» | revert =>
    refine h.bind h.pop fun _ => h.bind h.pop fun _ => h.bind (h.readMemory _ _) fun _ =>
      h.modifyFrame ?_
    intro f _ e hmode
    cases hmode
  | invalid => exact hfail rfl .invalidOpcode not_false
  | selfDestruct =>
    exact h.bind h.pop fun _ => h.bind h.getFrame fun _ =>
      h.bind (h.action (.selfDestruct _ _)) fun _ => h.setMode fun _ hmode => by cases hmode

/-! ### The phases -/

theorem useGas (h : Closed P) (hfail : AtFailures P) (gas : Int) : P Unit (Step.useGas gas) := by
  rw [useGas_eq]
  exact h.bind h.getFrame fun _ => ite (hfail .outOfGas not_false) (h.sameMode fun _ => rfl)

/-- Both checks of the stack, the second also after the first one failed. -/
theorem checkStack (h : Closed P) (hfail : AtFailures P) (operation : Operation) :
    P Unit (Step.checkStack operation) := by
  -- a failure does not show in the types, so that the branches join again after it
  refine h.bind h.getFrame fun _ => ite (h.bind (hfail .stackUnderflow not_false) fun _ => ?_) ?_
  · exact ite (hfail .stackOverflow not_false) (h.pure _)
  · exact ite (hfail .stackOverflow not_false) (h.pure _)

/-- The two checks of a frame that may not write. -/
theorem checkReadOnly (h : Closed P) (hfail : AtFailures P) (op : Opcode) (operation : Operation) :
    P Unit (Step.checkReadOnly op operation) := by
  -- the second check comes after the first one, whatever that says
  have hcall (stack : Stack) : P Unit (do
      if op = .call .call then
        if (← stack.back 2) ≠ 0 then Step.fail .staticCallViolation) := by
    refine ite (h.bind (h.value (stack.back_spares 2)) fun _ => ?_) (h.pure _)
    exact ite (hfail .staticCallViolation not_false) (h.pure _)
  refine h.bind h.getFrame fun _ => ite (ite ?_ (hcall _)) (h.pure _)
  exact h.bind (hfail .staticCallViolation not_false) fun _ => hcall _

/-- The memory that an instruction needs is found, or is too large to be named at all. -/
theorem findMemorySize (h : Closed P) (hfail : AtFailures P) (operation : Operation) :
    P Unit (Step.findMemorySize operation) := by
  refine h.bind h.getFrame fun f => h.bind (h.value (operation.memory.size?_spares f.stack))
    fun size? => ?_
  cases size? with
  | none => exact hfail .invalidMemoryAccess not_false
  | some size => exact h.sameMode fun _ => rfl

/-- The dynamic cost is found and paid, or is more than any amount of gas. -/
theorem payDynamic (h : Closed P) (hfail : AtFailures P) (operation : Operation) :
    P Int (Step.payDynamic operation) := by
  refine h.bind h.getFrame fun f => h.bind (h.action (.dynamic _ f _)) fun charge? => ?_
  cases charge? with
  | none => exact hfail .outOfGas not_false
  | some charge => exact h.bind (h.useGas hfail _) fun _ => h.pure _

theorem growMemory (h : Closed P) : P Unit Step.growMemory := by
  refine h.bind h.getFrame fun f => ite ?_ (h.pure _)
  exact h.bind (h.modifyMemory fun m => m.resize_spares _) fun _ => h.sameMode fun _ => rfl

/-- **What holds of the parts holds of a whole step.** -/
theorem phases (h : Closed P) (hfail : AtFailures P) (hrecord : ∀ op, P Unit (recordStep op))
    (ctx : Context) :
    P Unit (Step.phases ctx) := by
  refine h.bind h.getFrame fun f => ?_
  cases fetch? f.message.code.bytes f.pc with
  | none => exact h.fault trivial
  | some byte =>
    dsimp only
    cases lookup byte with
    | none => exact hfail .invalidOpcode not_false
    | some entry =>
      -- every phase in the order in which a step goes through them
      exact h.bind (hrecord _) fun _ => h.bind (h.checkStack hfail _) fun _ =>
        h.bind (h.checkReadOnly hfail _ _) fun _ => h.bind (h.useGas hfail _) fun _ =>
        h.bind (h.findMemorySize hfail _) fun _ => h.bind (h.payDynamic hfail _) fun _ =>
        h.bind h.growMemory fun _ => h.run ctx _ fun _ => hfail

end Closed

end Step

end EvmCore
