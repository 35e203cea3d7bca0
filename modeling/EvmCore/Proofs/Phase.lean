import EvmCore.Proofs.Instruction
import Mathlib

/-!
# What a step does

A step prepares an instruction, by checks and payments, and then runs it. `Prepared` collects what
is known when the instruction is about to run: the phases before it have warmed accounts and
slots, taken gas and grown the memory, and done nothing else. `steps_of_step` is all there is to
know about a step: it failed before the instruction ran, the instruction failed, or the
instruction did what its rule says.
-/

namespace EvmCore

/-! ### Finding the dynamic cost -/

/-- `x` only looks. With an answer it leaves what is shown alone; without one it has stayed within
its layer, and either the fault is one that `E` admits or the source failed to read. -/
def Looks {α : Type} (E : Fault → Prop) (x : Action α) : Prop :=
  ∀ s, match x s with
    | .ok _ s' => Quiet s s'
    | .error e s' => Grows s s' ∧ (E e ∨ ∃ a ∈ s.world.source.unreadable, e = .unreadable a)

namespace Looks

variable {α β : Type} {E : Fault → Prop} {x y : Action α} {s s' : State}

/-- With an answer, what is shown is left alone. -/
theorem quiet (h : Looks E x) : Keeps Quiet x := by
  intro s a s' hx
  have hs := h s
  rwa [hx] at hs

theorem error {e : Fault} (h : Looks E x) (hx : x s = .error e s') : Grows s s' ∧
    (E e ∨ ∃ a ∈ s.world.source.unreadable, e = .unreadable a) := by
  have hs := h s
  rwa [hx] at hs

theorem pure (a : α) : Looks E (pure a : Action α) := fun s => Std.Refl.refl s

/-- To look twice is to look. -/
theorem bind {f : α → Action β} (hx : Looks E x) (hf : ∀ a, Looks E (f a)) : Looks E (x >>= f) := by
  intro s
  cases h : (x >>= f) s with
  | ok b s' =>
    obtain ⟨a, s₁, h₁, h₂⟩ := bind_ok_iff.mp h
    exact IsTrans.trans _ _ _ (hx.quiet h₁) ((hf a).quiet h₂)
  | error e s' =>
    rcases bind_error_iff.mp h with h₁ | ⟨a, s₁, h₁, h₂⟩
    · exact hx.error h₁
    · have hquiet := hx.quiet h₁
      obtain ⟨hgrows, he⟩ := (hf a).error h₂
      -- the second part reads from the same source
      rw [hquiet.source] at he
      exact ⟨hquiet.toGrows.trans hgrows, he⟩

theorem ite {c : Prop} [Decidable c] (hx : Looks E x) (hy : Looks E y) :
    Looks E (if c then x else y) := by
  split
  · exact hx
  · exact hy

theorem throw {e : Fault} (h : E e) : Looks E (throw e : Action α) :=
  fun s => ⟨Grows.refl s, .inl h⟩

theorem discard (hx : Looks E x) : Looks E (discard x) := by
  rw [discard_eq]
  exact hx.bind fun _ => pure ()

theorem forM {f : β → Action PUnit} {l : List β} (hf : ∀ b, Looks E (f b)) :
    Looks E (l.forM f) := by
  -- by induction on the list, each member being looked at in turn
  induction l with
  | nil => exact pure _
  | cons b l ih => exact (hf b).bind fun _ => ih

/-- Asking what is shown is looking. -/
theorem of_mirrors {f : View → α} (h : Mirrors x (View.reads f)) : Looks E x := by
  intro s
  cases hx : x s with
  | ok a s' => exact h.quiet hx
  | error e s' =>
    -- reading what is shown has no fault of its own
    obtain ⟨hgrows, hy | hread⟩ := h.error hx
    · cases hy
    · exact ⟨hgrows, .inr hread⟩

/-- A value that was computed apart looks at nothing, if its faults are admitted. -/
theorem liftExcept {x : Except Fault α} (h : ∀ e, x = .error e → E e) :
    Looks E (liftM x : Action α) := by
  intro s
  cases x with
  | ok a => exact Std.Refl.refl s
  | error e => exact ⟨Grows.refl s, .inl (h e rfl)⟩

theorem warmAccount (a : Address) : Looks E (Substate.warmAccount a) := by
  intro s
  exact Substate.warmAccount_quiet a (s := s) rfl

theorem warmSlot (slot : Slot) : Looks E (Substate.warmSlot slot) := by
  intro s
  exact Substate.warmSlot_quiet slot (s := s) rfl

end Looks

/-- The faults of looking for one of the top `n` words of a stack. -/
def Stack.Lacks (stack : Stack) (n : Nat) (e : Fault) : Prop := ∃ i < n, stack.back i = .error e

namespace Gas

variable {n : Nat}

/-- A word of the stack, among those that may be lacking. -/
theorem back_looks {stack : Stack} {i : Nat} (h : i < n) :
    Looks (stack.Lacks n) (liftM (stack.back i) : Action Word) :=
  .liftExcept fun _ he => ⟨i, h, he⟩

/-- An address of the stack lacks what its word lacks. -/
theorem backAddress_looks {stack : Stack} {i : Nat} (h : i < n) :
    Looks (stack.Lacks n) (liftM (stack.backAddress i) : Action Address) := by
  refine .liftExcept fun e he => ⟨i, h, ?_⟩
  rw [Stack.backAddress] at he
  -- a word that is there is an address, whatever it is
  cases hback : stack.back i with
  | ok w =>
    rw [hback] at he
    cases he
  | error e' =>
    rw [hback] at he
    cases he
    rfl

/-- What is asked to find a dynamic cost. -/
theorem looks_closed (stack : Stack) (n : Nat) :
    Closed stack n fun _ x => Looks (stack.Lacks n) x where
  pure := .pure
  bind := .bind
  back := back_looks
  backAddress := backAddress_looks
  warmAccount := .warmAccount
  warmSlot := .warmSlot
  storage a key := .of_mirrors (World.storage_mirrors a key)
  initial a key := .of_mirrors (World.initial_mirrors a key)
  isEmpty a := .of_mirrors (World.isEmpty_mirrors a)
  balance a := .of_mirrors (World.balance_mirrors a)

/-- **Finding the dynamic cost** changes nothing that is shown, and needs no
more than its operands. -/
theorem dynamic_looks (cost : DynamicCost) (frame : Frame) (size : Int) :
    Looks (frame.stack.Lacks cost.operands) (dynamic cost frame size) :=
  (looks_closed frame.stack cost.operands).dynamic size

/-- In particular it is quiet. -/
theorem dynamic_quiet (cost : DynamicCost) (frame : Frame) (size : Int) :
    Keeps Quiet (dynamic cost frame size) :=
  (dynamic_looks cost frame size).quiet

end Gas

namespace Step

/-! ### The phases, one by one -/

/-- A phase that fails may have warmed something, and leaves the frame alone. -/
structure Warmed (a a' : Activation) : Prop where
  frame : a'.frame = a.frame
  quiet : Quiet a.state a'.state

instance : Std.Refl Warmed := ⟨fun a => ⟨rfl, Std.Refl.refl a.state⟩⟩

section Phases

variable {f : Frame} {s : State} {a' : Activation} {u : Unit}

/-- Recording a step leaves the frame alone and changes nothing that is shown. -/
theorem recordStep_ok {op : Opcode} (h : recordStep op ⟨f, s⟩ = .ok u a') :
    ∃ s₀, Quiet s s₀ ∧ a' = ⟨f, s₀⟩ := by
  rw [recordStep, modify_ok_iff] at h
  dsimp only at h
  -- without a trace nothing is recorded
  split at h
  · exact ⟨s, Std.Refl.refl s, h.symm⟩
  · refine ⟨_, ?_, h.symm⟩
    exact .of_retains (.of_eq rfl rfl rfl rfl rfl) rfl rfl

/-- Recording a step never fails. -/
theorem recordStep_neverFails (op : Opcode) : NeverFails (recordStep op) :=
  fun _ _ _ => modify_ne_error

/-- A check that is made before the rest of a phase. -/
theorem check_ok {c : Prop} [Decidable c] {e : Failure} {rest : Unit → StepM Unit} {a : Activation}
    (h : (if c then (fail e >>= rest) else rest ()) a = .ok u a') : ¬c ∧ rest () a = .ok u a' := by
  split at h
  · -- to fail is to stop there, so the rest was not reached
    obtain ⟨_, a₁, hfail, -⟩ := bind_ok_iff.mp h
    exact absurd hfail throw_ne_ok
  · next hc => exact ⟨hc, h⟩

/-- A check fails at once, or the rest of the phase does. -/
theorem check_fails {c : Prop} [Decidable c] {e : Failure} {rest : Unit → StepM Unit}
    (h : Fails Warmed (rest ())) : Fails Warmed (if c then (fail e >>= rest) else rest ()) := by
  refine Fails.ite (fun a e' a' hfail => ?_) h
  rcases bind_error_iff.mp hfail with hfail | ⟨_, a₁, hok, -⟩
  · exact Fails.fail e hfail
  · exact absurd hok throw_ne_ok

/-- The stack is as deep as the instruction needs, and has the room it needs. -/
theorem checkStack_ok {operation : Operation} (h : checkStack operation ⟨f, s⟩ = .ok u a') :
    operation.minStack ≤ f.stack.length ∧ f.stack.length ≤ operation.maxStack ∧ a' = ⟨f, s⟩ := by
  rw [checkStack, getFrame_bind] at h
  obtain ⟨hmin, h⟩ := check_ok h
  by_cases hmax : operation.maxStack < f.stack.length
  · simp only [if_pos hmax] at h
    exact absurd h throw_ne_ok
  · simp only [if_neg hmax] at h
    exact ⟨not_lt.mp hmin, not_lt.mp hmax, (pure_ok_iff.mp h).2.symm⟩

/-- A phase that starts by asking for the frame. -/
theorem getFrame_bind_fails {α : Type} {g : Frame → StepM α} (h : ∀ f, Fails Warmed (g f)) :
    Fails Warmed (getFrame >>= g) := by
  rintro ⟨f, s⟩ e a' hfail
  exact h f hfail

/-- The check of the stack leaves everything as it was where it fails. -/
theorem checkStack_fails (operation : Operation) : Fails Warmed (checkStack operation) := by
  refine getFrame_bind_fails fun f => check_fails ?_
  exact (Fails.fail _).ite (NeverFails.pure ()).fails

/-- A frame that must not write runs no instruction that does, and no call that moves value. -/
theorem checkReadOnly_ok {op : Opcode} {operation : Operation}
    (h : checkReadOnly op operation ⟨f, s⟩ = .ok u a') :
    (f.message.readOnly = true → operation.writes = false ∧
      (op = .call .call → f.stack.back 2 = .ok 0)) ∧ a' = ⟨f, s⟩ := by
  rw [checkReadOnly, getFrame_bind] at h
  -- only a frame that must not write is checked, and only a call is checked for its value
  by_cases hreadOnly : f.message.readOnly = true
  · simp only [if_pos hreadOnly] at h
    obtain ⟨hwrites, h⟩ := check_ok h
    by_cases hop : op = .call .call
    · simp only [if_pos hop] at h
      obtain ⟨value, hvalue, h⟩ := liftExcept_bind_ok h
      by_cases hzero : value = 0
      · simp only [hzero, ne_eq, not_true_eq_false, if_false] at h
        -- the check is on a Boolean that is not true
        exact ⟨fun _ => ⟨Bool.not_eq_true _ ▸ hwrites, fun _ => hzero ▸ hvalue⟩,
          (pure_ok_iff.mp h).2.symm⟩
      · simp only [ne_eq, hzero, not_false_eq_true, if_true] at h
        exact absurd h throw_ne_ok
    · simp only [if_neg hop] at h
      exact ⟨fun _ => ⟨Bool.not_eq_true _ ▸ hwrites, fun hcall => absurd hcall hop⟩,
        (pure_ok_iff.mp h).2.symm⟩
  · simp only [if_neg hreadOnly] at h
    exact ⟨fun hr => absurd hr hreadOnly, (pure_ok_iff.mp h).2.symm⟩

/-- So does the check of what must not be written. -/
theorem checkReadOnly_fails (op : Opcode) (operation : Operation) :
    Fails Warmed (checkReadOnly op operation) := by
  refine getFrame_bind_fails fun f => Fails.ite (check_fails ?_) (NeverFails.pure ()).fails
  refine Fails.ite ?_ (NeverFails.pure ()).fails
  -- the value of a call is looked up on the stack, which cannot fail the frame
  intro a e a' h
  rcases bind_error_iff.mp h with hlift | ⟨value, a₁, hlift, hvalue⟩
  · exact (NeverFails.liftExcept _ hlift).elim
  · obtain ⟨-, rfl⟩ := liftExcept_ok_iff.mp hlift
    exact (Fails.fail .staticCallViolation).ite (NeverFails.pure ()).fails hvalue

/-- A payment that cannot be made takes nothing. -/
theorem useGas_fails (gas : Int) : Fails Warmed (useGas gas) := by
  rintro ⟨f, s⟩ e a' h
  by_cases hgas : gas ≤ f.gas
  · rw [useGas_of_le hgas] at h
    cases h
  · rw [useGas_of_lt (not_le.mp hgas)] at h
    cases h
    exact Std.Refl.refl _

/-- The size of the memory that is needed is found on the stack, and rounded up to words. -/
theorem findMemorySize_ok {operation : Operation}
    (h : findMemorySize operation ⟨f, s⟩ = .ok u a') :
    ∃ size, operation.memory.size? f.stack = .ok (some size) ∧
      a' = ⟨{ f with memoryDesired := Gas.wordCount size * 32 }, s⟩ := by
  rw [findMemorySize, getFrame_bind] at h
  obtain ⟨size?, hsize, h⟩ := liftExcept_bind_ok h
  cases size? with
  | none => exact absurd h throw_ne_ok
  | some size => exact ⟨size, hsize, modifyFrame_ok_iff.mp h⟩

/-- Where there is no such size the frame fails, as it was. -/
theorem findMemorySize_fails (operation : Operation) : Fails Warmed (findMemorySize operation) := by
  refine getFrame_bind_fails fun f a e a' h => ?_
  rcases bind_error_iff.mp h with h | ⟨size?, a₁, hlift, h⟩
  · exact (NeverFails.liftExcept _ h).elim
  · obtain ⟨-, rfl⟩ := liftExcept_ok_iff.mp hlift
    cases size? with
    | none => exact Fails.fail _ h
    | some size => exact (NeverFails.modifyFrame _ h).elim

/-- The dynamic cost is found and paid. -/
theorem payDynamic_ok {operation : Operation} {forwarded : Int}
    (h : payDynamic operation ⟨f, s⟩ = .ok forwarded a') :
    ∃ charge s', Gas.dynamic operation.dynamic f f.memoryDesired s = .ok (some charge) s' ∧
      charge.gas ≤ f.gas ∧ forwarded = charge.forwarded ∧
      a' = ⟨{ f with gas := f.gas - charge.gas }, s'⟩ := by
  rw [payDynamic, getFrame_bind] at h
  obtain ⟨charge?, s', hdynamic, h⟩ := liftAction_bind_ok h
  cases charge? with
  | none => exact absurd h throw_ne_ok
  | some charge =>
    obtain ⟨_, a₂, hpay, h⟩ := bind_ok_iff.mp h
    obtain ⟨hgas, rfl⟩ := useGas_ok_iff.mp hpay
    obtain ⟨rfl, rfl⟩ := pure_ok_iff.mp h
    exact ⟨charge, s', hdynamic, hgas, rfl, rfl⟩

/-- Where it cannot be found or paid, it has warmed at most. -/
theorem payDynamic_fails (operation : Operation) : Fails Warmed (payDynamic operation) := by
  rintro ⟨f, s⟩ e a' h
  rw [payDynamic, getFrame_bind] at h
  rcases bind_error_iff.mp h with h | ⟨charge?, a₁, hlift, h⟩
  · exact (NeverFails.liftAction _ h).elim
  · obtain ⟨s', hdynamic, rfl⟩ := liftAction_ok_iff.mp hlift
    -- whatever comes of the charge, finding it has warmed at most
    have hquiet : Warmed ⟨f, s⟩ ⟨f, s'⟩ := ⟨rfl, Gas.dynamic_quiet _ _ _ hdynamic⟩
    cases charge? with
    | none =>
      obtain ⟨-, rfl⟩ := throw_error_iff.mp h
      exact hquiet
    | some charge =>
      -- after the charge only the payment can fail
      rcases bind_error_iff.mp h with h | ⟨_, a₂, -, h⟩
      · obtain ⟨hframe, hstate⟩ := useGas_fails _ h
        exact ⟨hframe, IsTrans.trans _ _ _ hquiet.quiet hstate⟩
      · exact absurd h pure_ne_error

end Phases

/-! ### All phases -/

end Step

/-- The frame with its memory grown to the size that was found. -/
def Frame.grown (f : Frame) : Frame :=
  if f.memory.size < f.memoryDesired then
    { f with
      memory := f.memory.grow f.memoryDesired.toNat
      activeWords := f.memoryDesired.toNat / 32 }
  else f

/-- The frame after gas was taken from it for an instruction that needs `size` bytes of memory. -/
def Frame.spent (f : Frame) (gas size : Int) : Frame :=
  { f with gas := f.gas - gas, memoryDesired := Gas.wordCount size * 32 }

@[simp] theorem Frame.grown_message (f : Frame) : f.grown.message = f.message := by
  rw [grown]; split <;> rfl

@[simp] theorem Frame.grown_gas (f : Frame) : f.grown.gas = f.gas := by
  rw [grown]; split <;> rfl

@[simp] theorem Frame.grown_stack (f : Frame) : f.grown.stack = f.stack := by
  rw [grown]; split <;> rfl

@[simp] theorem Frame.grown_pc (f : Frame) : f.grown.pc = f.pc := by
  rw [grown]; split <;> rfl

@[simp] theorem Frame.grown_mode (f : Frame) : f.grown.mode = f.mode := by
  rw [grown]; split <;> rfl

namespace Step

/-- Memory that can be paid for grows. -/
theorem growMemory_of_le {f : Frame} (s : State) (h : f.memoryDesired ≤ Gas.maxMemorySize) :
    growMemory ⟨f, s⟩ = .ok () ⟨f.grown, s⟩ := by
  -- memory of such a size can always be made
  rw [growMemory, getFrame_bind, Frame.grown]
  split
  · rw [bind_of_ok (modifyMemory_of_ok (Memory.resize_of_le h))]
    rfl
  · rfl

/-- Growing the memory changes nothing else, and there may be no room for it. -/
theorem growMemory_cases (f : Frame) (s : State) :
    growMemory ⟨f, s⟩ = .ok () ⟨f.grown, s⟩ ∨
      ∃ e, growMemory ⟨f, s⟩ = .error (.fault e) ⟨f, s⟩ := by
  rw [growMemory, getFrame_bind, Frame.grown]
  split
  · -- the frame changes only if there was room
    cases hresize : f.memory.resize f.memoryDesired with
    | ok m =>
      left
      rw [bind_of_ok (modifyMemory_of_ok hresize), Memory.eq_grow_of_resize hresize]
      rfl
    | error e => exact .inr ⟨e, bind_error_iff.mpr (.inl (modifyMemory_of_error hresize))⟩
  · exact .inl rfl

/-- What growing the memory leaves. -/
theorem growMemory_ok {f : Frame} {s : State} {u : Unit} {a : Activation}
    (h : growMemory ⟨f, s⟩ = .ok u a) : a = ⟨f.grown, s⟩ := by
  obtain hgrow | ⟨e, hgrow⟩ := growMemory_cases f s
  · cases hgrow.symm.trans h
    rfl
  · cases hgrow.symm.trans h

/-- A lack of room is a fault, and no failure of the frame. -/
theorem growMemory_neverFails : NeverFails growMemory := by
  rintro ⟨f, s⟩ e a h
  obtain hgrow | ⟨e', hgrow⟩ := growMemory_cases f s
  · cases hgrow.symm.trans h
  · cases hgrow.symm.trans h

end Step

/-- Past the end of the code there are zeros. -/
theorem fetch?_of_nonneg (code : ByteArray) {pc : Int} (h : 0 ≤ pc) :
    fetch? code pc = some (opAt code pc.toNat) := by
  rw [fetch?, if_neg (not_lt.mpr h), if_neg (not_lt.mpr h)]

/-- The instruction that a frame is at, with its table entry. -/
def Frame.IsAt (f : Frame) (op : Opcode) (operation : Operation) : Prop :=
  ∃ byte, fetch? f.message.code.bytes f.pc = some byte ∧ lookup byte = some (op, operation)

/-- The byte at the program counter stands for one instruction only. -/
theorem Frame.IsAt.unique {f : Frame} {op op' : Opcode} {operation operation' : Operation}
    (h : f.IsAt op operation) (h' : f.IsAt op' operation') : op' = op ∧ operation' = operation := by
  obtain ⟨byte, hfetch, hlookup⟩ := h
  obtain ⟨byte', hfetch', hlookup'⟩ := h'
  cases hfetch.symm.trans hfetch'
  cases hlookup.symm.trans hlookup'
  exact ⟨rfl, rfl⟩

/-- What a frame is at has an entry in the table. -/
theorem Frame.IsAt.operation? {f : Frame} {op : Opcode} {operation : Operation}
    (h : f.IsAt op operation) : op.operation? = some operation := by
  obtain ⟨byte, -, hlookup⟩ := h
  -- the byte is that of an instruction, and the instruction has the entry
  rw [lookup_eq, lookup?] at hlookup
  obtain ⟨op', -, hlookup⟩ := Option.bind_eq_some_iff.mp hlookup
  obtain ⟨operation', hoperation, hlookup⟩ := Option.bind_eq_some_iff.mp hlookup
  cases hlookup
  exact hoperation

/-- An instruction that is about to run, with all that was found out and paid before: `f` and `s`
have become `f₁` and `s₁`. -/
structure Prepared (f : Frame) (s : State) (op : Opcode) (operation : Operation)
    (charge : Gas.Charge) (f₁ : Frame) (s₁ : State) : Prop where
  isAt : f.IsAt op operation
  deep : operation.minStack ≤ f.stack.length
  room : f.stack.length ≤ operation.maxStack
  allowed : f.message.readOnly = true →
    operation.writes = false ∧ (op = .call .call → f.stack.back 2 = .ok 0)
  constant : operation.constantGas ≤ f.gas
  charged : ∃ size s₀, operation.memory.size? f.stack = .ok (some size) ∧ Quiet s s₀ ∧
    Gas.dynamic operation.dynamic (f.spent operation.constantGas size)
      (Gas.wordCount size * 32) s₀ = .ok (some charge) s₁ ∧
    f₁ = ((f.spent operation.constantGas size).spent charge.gas size).grown
  paid : charge.gas ≤ f.gas - operation.constantGas

namespace Prepared

variable {f f₁ : Frame} {s s₁ : State} {op : Opcode} {operation : Operation} {charge : Gas.Charge}

/-- Preparing an instruction changes nothing that is shown. -/
theorem quiet (h : Prepared f s op operation charge f₁ s₁) : Quiet s s₁ := by
  obtain ⟨size, s₀, -, hquiet, hdynamic, -⟩ := h.charged
  exact IsTrans.trans _ _ _ hquiet (Gas.dynamic_quiet _ _ _ hdynamic)

/-- It does not change the message. -/
theorem message (h : Prepared f s op operation charge f₁ s₁) : f₁.message = f.message := by
  obtain ⟨size, s₀, -, -, -, rfl⟩ := h.charged
  exact Frame.grown_message _

/-- Nor the stack, which the instruction has yet to take its words from. -/
theorem stack (h : Prepared f s op operation charge f₁ s₁) : f₁.stack = f.stack := by
  obtain ⟨size, s₀, -, -, -, rfl⟩ := h.charged
  exact Frame.grown_stack _

/-- Nor the program counter. -/
theorem pc (h : Prepared f s op operation charge f₁ s₁) : f₁.pc = f.pc := by
  obtain ⟨size, s₀, -, -, -, rfl⟩ := h.charged
  exact Frame.grown_pc _

/-- Nor the mode. -/
theorem mode (h : Prepared f s op operation charge f₁ s₁) : f₁.mode = f.mode := by
  obtain ⟨size, s₀, -, -, -, rfl⟩ := h.charged
  exact Frame.grown_mode _

/-- It takes both costs. -/
theorem gas (h : Prepared f s op operation charge f₁ s₁) :
    f₁.gas = f.gas - operation.constantGas - charge.gas := by
  obtain ⟨size, s₀, -, -, -, rfl⟩ := h.charged
  exact Frame.grown_gas _

end Prepared

/-- A step that failed before its instruction ran: at most the constant cost was paid. -/
structure Unprepared (f : Frame) (s : State) (f' : Frame) (s' : State) : Prop where
  quiet : Quiet s s'
  frame : ∃ gas memoryDesired, f' = { f with gas, memoryDesired }
  gas : f'.gas = f.gas ∨ ∃ op operation, f.IsAt op operation ∧ operation.constantGas ≤ f.gas ∧
    f'.gas = f.gas - operation.constantGas

/-- A step that failed that early has not changed the message. -/
theorem Unprepared.message {f f' : Frame} {s s' : State} (h : Unprepared f s f' s') :
    f'.message = f.message := by
  obtain ⟨gas, memoryDesired, rfl⟩ := h.frame
  rfl

namespace Step

variable {ctx : Context} {f f' : Frame} {s s' : State}

/-- The phases from the constant cost on. -/
def paying (ctx : Context) (op : Opcode) (operation : Operation) : StepM Unit := do
  useGas operation.constantGas
  findMemorySize operation
  let forwarded ← payDynamic operation
  growMemory
  run ctx forwarded op

/-- All phases, for a frame that is at an instruction. -/
theorem phases_of_isAt {op : Opcode} {operation : Operation} (h : f.IsAt op operation) :
    phases ctx ⟨f, s⟩ = (do
      recordStep op
      checkStack operation
      checkReadOnly op operation
      paying ctx op operation : StepM Unit) ⟨f, s⟩ := by
  obtain ⟨byte, hfetch, hlookup⟩ := h
  rw [phases, getFrame_bind, hfetch]
  dsimp only
  rw [hlookup]
  rfl

/-- A frame that is at no instruction fails, or cannot go on at all if it is not even at a byte. -/
theorem phases_of_not_isAt (ctx : Context) (s : State) (h : ∀ op operation, ¬f.IsAt op operation) :
    phases ctx ⟨f, s⟩ = .error (.failure .invalidOpcode) ⟨f, s⟩ ∨
      phases ctx ⟨f, s⟩ = .error (.fault .outOfRange) ⟨f, s⟩ ∧
        fetch? f.message.code.bytes f.pc = none := by
  rw [phases, getFrame_bind]
  cases hfetch : fetch? f.message.code.bytes f.pc with
  | none => exact .inr ⟨rfl, rfl⟩
  | some byte =>
    cases hlookup : lookup byte with
    | none =>
      left
      dsimp only
      rw [hlookup]
      rfl
    | some entry => exact absurd ⟨byte, hfetch, hlookup⟩ (h entry.1 entry.2)

/-- A phase that ends with an error decides how the step ends. -/
theorem error_cases {α : Type} {x : StepM α} {g : α → StepM Unit} {e : Stop} {a : Activation}
    {r : EStateM.Result Stop Activation Unit} (hfails : Fails Warmed x) (hr : (x >>= g) ⟨f, s⟩ = r)
    (hx : x ⟨f, s⟩ = .error e a) :
    (∃ e s₁, Quiet s s₁ ∧ r = .error (.failure e) ⟨f, s₁⟩) ∨ (∃ e a, r = .error (.fault e) a) := by
  -- the rest of the step is not reached
  rw [← hr, bind_error_iff.mpr (.inl hx)]
  cases e with
  | fault e => exact .inr ⟨e, a, rfl⟩
  | failure e =>
    obtain ⟨hframe, hquiet⟩ := hfails hx
    obtain ⟨f₁, s₁⟩ := a
    obtain rfl : f₁ = f := hframe
    exact .inl ⟨e, s₁, hquiet, rfl⟩

/-- The checks let an instruction pass, or fail and leave the frame alone. -/
theorem checks_cases {op : Opcode} {operation : Operation} (hat : f.IsAt op operation)
    {r : EStateM.Result Stop Activation Unit} (h : phases ctx ⟨f, s⟩ = r) :
    (∃ s₀, Quiet s s₀ ∧ operation.minStack ≤ f.stack.length ∧
      f.stack.length ≤ operation.maxStack ∧
      (f.message.readOnly = true → operation.writes = false ∧
        (op = .call .call → f.stack.back 2 = .ok 0)) ∧
      paying ctx op operation ⟨f, s₀⟩ = r) ∨
    (∃ e s₀, Quiet s s₀ ∧ r = .error (.failure e) ⟨f, s₀⟩) ∨
    (∃ e a, r = .error (.fault e) a) := by
  rw [phases_of_isAt hat] at h
  cases hrecord : recordStep op ⟨f, s⟩ with
  | error e a => exact .inr (error_cases (recordStep_neverFails op).fails h hrecord)
  | ok u a₁ =>
    rw [bind_of_ok hrecord] at h
    obtain ⟨s₀, hquiet, rfl⟩ := recordStep_ok hrecord
    -- Recording the step may already have changed the state, quietly: what the checks leave is then
    -- quiet from the start as well.
    have hafter (h : (∃ e s₁, Quiet s₀ s₁ ∧ r = .error (.failure e) ⟨f, s₁⟩) ∨
        (∃ e a, r = .error (.fault e) a)) :
        (∃ e s₁, Quiet s s₁ ∧ r = .error (.failure e) ⟨f, s₁⟩) ∨ (∃ e a, r = .error (.fault e) a) :=
      h.imp_left fun ⟨e, s₁, hs₁, hr⟩ => ⟨e, s₁, IsTrans.trans _ _ _ hquiet hs₁, hr⟩
    cases hstack : checkStack operation ⟨f, s₀⟩ with
    | error e a => exact .inr (hafter (error_cases (checkStack_fails operation) h hstack))
    | ok u a₂ =>
      rw [bind_of_ok hstack] at h
      obtain ⟨hmin, hmax, rfl⟩ := checkStack_ok hstack
      cases hread : checkReadOnly op operation ⟨f, s₀⟩ with
      | error e a => exact .inr (hafter (error_cases (checkReadOnly_fails op operation) h hread))
      | ok u a₃ =>
        rw [bind_of_ok hread] at h
        obtain ⟨hallowed, rfl⟩ := checkReadOnly_ok hread
        exact .inl ⟨s₀, hquiet, hmin, hmax, hallowed, h⟩

/-- The payments are made and the instruction runs, or they fail. -/
theorem paying_cases {op : Opcode} {operation : Operation}
    {r : EStateM.Result Stop Activation Unit} (h : paying ctx op operation ⟨f, s⟩ = r) :
    (∃ size charge s₁, operation.constantGas ≤ f.gas ∧
      operation.memory.size? f.stack = .ok (some size) ∧
      Gas.dynamic operation.dynamic (f.spent operation.constantGas size)
        (Gas.wordCount size * 32) s = .ok (some charge) s₁ ∧
      charge.gas ≤ f.gas - operation.constantGas ∧
      run ctx charge.forwarded op
        ⟨((f.spent operation.constantGas size).spent charge.gas size).grown, s₁⟩ = r) ∨
    (∃ e f₁ s₁, Quiet s s₁ ∧ (∃ gas memoryDesired, f₁ = { f with gas, memoryDesired }) ∧
      (f₁.gas = f.gas ∨ operation.constantGas ≤ f.gas ∧ f₁.gas = f.gas - operation.constantGas) ∧
      r = .error (.failure e) ⟨f₁, s₁⟩) ∨
    (∃ e a, r = .error (.fault e) a) := by
  cases hconstant : useGas operation.constantGas ⟨f, s⟩ with
  | error e a =>
    refine .inr ((error_cases (useGas_fails _) h hconstant).imp_left ?_)
    rintro ⟨e, s₁, hquiet, hr⟩
    exact ⟨e, f, s₁, hquiet, ⟨_, _, rfl⟩, .inl rfl, hr⟩
  | ok u a₁ =>
    rw [paying, bind_of_ok hconstant] at h
    -- From here on the constant cost is gone, and a failure does not give it back.
    obtain ⟨hgas, rfl⟩ := useGas_ok_iff.mp hconstant
    cases hmemory : findMemorySize operation
        ⟨{ f with gas := f.gas - operation.constantGas }, s⟩ with
    | error e a =>
      refine .inr ((error_cases (findMemorySize_fails operation) h hmemory).imp_left ?_)
      rintro ⟨e, s₁, hquiet, hr⟩
      exact ⟨e, { f with gas := f.gas - operation.constantGas }, s₁, hquiet, ⟨_, _, rfl⟩,
        .inr ⟨hgas, rfl⟩, hr⟩
    | ok u a₂ =>
      rw [bind_of_ok hmemory] at h
      obtain ⟨size, hsize, rfl⟩ := findMemorySize_ok hmemory
      cases hdynamic : payDynamic operation ⟨f.spent operation.constantGas size, s⟩ with
      | error e a =>
        refine .inr ((error_cases (payDynamic_fails operation) h hdynamic).imp_left ?_)
        rintro ⟨e, s₁, hquiet, hr⟩
        exact ⟨e, f.spent operation.constantGas size, s₁, hquiet, ⟨_, _, rfl⟩,
          .inr ⟨hgas, rfl⟩, hr⟩
      | ok forwarded a₃ =>
        obtain ⟨charge, s₁, hcharge, hpaid, rfl, rfl⟩ := payDynamic_ok hdynamic
        -- the frame that has paid is written as one from which gas was taken twice
        have hrun : (growMemory >>= fun _ => run ctx charge.forwarded op)
            ⟨(f.spent operation.constantGas size).spent charge.gas size, s₁⟩ = r :=
          (bind_of_ok (f := fun forwarded => growMemory >>= fun _ => run ctx forwarded op)
            hdynamic).symm.trans h
        -- Growing memory does not fail the frame, so what is left is the
        -- instruction on the grown frame.
        obtain hgrow | ⟨e, hgrow⟩ :=
          growMemory_cases ((f.spent operation.constantGas size).spent charge.gas size) s₁
        · rw [bind_of_ok hgrow] at hrun
          exact .inl ⟨size, charge, s₁, hgas, hsize, hcharge, hpaid, hrun⟩
        · rw [bind_error_iff.mpr (.inl hgrow)] at hrun
          exact .inr (.inr ⟨e, _, hrun.symm⟩)

end Step

/-! ### Steps -/

/-- One step of a frame, from `f` and `s` to `f'` and `s'`. -/
inductive Steps (ctx : Context) (f : Frame) (s : State) : Frame → State → Prop
  /-- It failed before its instruction ran. -/
  | unprepared {f₁ : Frame} {s' : State} (e : Failure) : Unprepared f s f₁ s' →
      Steps ctx f s { f₁ with mode := .exited (.failed e) } s'
  /-- Its instruction failed. -/
  | failed {op : Opcode} {operation : Operation} {charge : Gas.Charge} {f₁ f₂ : Frame}
      {s₁ s' : State} (e : Failure) : Prepared f s op operation charge f₁ s₁ →
      Step.Untouched ⟨f₁, s₁⟩ ⟨f₂, s'⟩ → Steps ctx f s { f₂ with mode := .exited (.failed e) } s'
  /-- Its instruction ended with a value. -/
  | executed {op : Opcode} {operation : Operation} {charge : Gas.Charge} {f₁ f' : Frame}
      {s₁ s' : State} : Prepared f s op operation charge f₁ s₁ →
      Executes ctx charge.forwarded op f₁ s₁ f' s' → Steps ctx f s f' s'

/-- The phases of a step end as one of the rules says, or with a fault. -/
theorem Step.phases_cases (ctx : Context) (f : Frame) (s : State) :
    (∃ f' s', phases ctx ⟨f, s⟩ = .ok () ⟨f', s'⟩ ∧ Steps ctx f s f' s') ∨
    (∃ e f₁ s', phases ctx ⟨f, s⟩ = .error (.failure e) ⟨f₁, s'⟩ ∧
      Steps ctx f s { f₁ with mode := .exited (.failed e) } s') ∨
    (∃ e a, phases ctx ⟨f, s⟩ = .error (.fault e) a) := by
  by_cases hat : ∃ op operation, f.IsAt op operation
  · obtain ⟨op, operation, hat⟩ := hat
    -- the checks, then the payments, then the instruction: each is passed or
    -- decides how the step ends
    obtain ⟨s₀, hquiet, hmin, hmax, hallowed, hpaying⟩ | ⟨e, s₀, hquiet, h⟩ | ⟨e, a, h⟩ :=
      checks_cases hat (Eq.refl (phases ctx ⟨f, s⟩))
    · obtain ⟨size, charge, s₁, hgas, hsize, hcharge, hpaid, hrun⟩ |
        ⟨e, f₁, s₁, hquiet₁, hframe, hgas, h⟩ | ⟨e, a, h⟩ := paying_cases hpaying
      · have hprepared : Prepared f s op operation charge _ s₁ :=
          ⟨hat, hmin, hmax, hallowed, hgas, ⟨size, s₀, hsize, hquiet, hcharge, rfl⟩, hpaid⟩
        -- Everything is paid for: the instruction alone decides which rule the step ends with.
        rw [← hrun]
        cases hresult : run ctx charge.forwarded op
          ⟨((f.spent operation.constantGas size).spent charge.gas size).grown, s₁⟩ with
        | ok u a =>
          exact .inl ⟨a.frame, a.state, rfl, .executed hprepared (executes_of_run hresult)⟩
        | error stop a =>
          cases stop with
          | fault e => exact .inr (.inr ⟨e, a, rfl⟩)
          | failure e =>
            exact .inr (.inl ⟨e, a.frame, a.state, rfl,
              .failed e hprepared (run_fails ctx _ op hresult)⟩)
      · have hunprepared : Unprepared f s f₁ s₁ :=
          ⟨IsTrans.trans _ _ _ hquiet hquiet₁, hframe,
            hgas.imp_right fun ⟨hle, heq⟩ => ⟨op, operation, hat, hle, heq⟩⟩
        exact .inr (.inl ⟨e, f₁, s₁, h, .unprepared e hunprepared⟩)
      · exact .inr (.inr ⟨e, a, h⟩)
    · exact .inr (.inl ⟨e, f, s₀, h, .unprepared e ⟨hquiet, ⟨_, _, rfl⟩, .inl rfl⟩⟩)
    · exact .inr (.inr ⟨e, a, h⟩)
  · push Not at hat
    -- at no instruction nothing was paid
    obtain h | ⟨h, -⟩ := phases_of_not_isAt ctx s hat
    · exact .inr (.inl ⟨_, f, s, h, .unprepared _ ⟨Std.Refl.refl s, ⟨_, _, rfl⟩, .inl rfl⟩⟩)
    · exact .inr (.inr ⟨_, _, h⟩)

/-- **What a step does**, if it is no fault. -/
theorem steps_of_step {ctx : Context} {f f' : Frame} {s s' : State} {u : Unit}
    (h : step ctx ⟨f, s⟩ = .ok u ⟨f', s'⟩) : Steps ctx f s f' s' := by
  obtain ⟨f₁, s₁, hphases, hsteps⟩ | ⟨e, f₁, s₁, hphases, hsteps⟩ | ⟨e, a, hphases⟩ :=
    Step.phases_cases ctx f s
  · rw [step, hphases] at h
    cases h
    exact hsteps
  · rw [step, hphases] at h
    cases h
    exact hsteps
  · rw [step, hphases] at h
    cases h

/-- No step changes the message of its frame. -/
theorem Steps.message {ctx : Context} {f f' : Frame} {s s' : State} (h : Steps ctx f s f' s') :
    f'.message = f.message := by
  cases h with
  | unprepared e hunprepared => exact hunprepared.message
  | failed e hprepared huntouched => exact huntouched.message.trans hprepared.message
  | executed hprepared hexecutes => exact hexecutes.message.trans hprepared.message

end EvmCore
