import EvmCore.Proofs.Bounded
import Mathlib

/-!
# Steps without a fault

A step can fail, which ends its frame, or come to a fault, which ends everything. A frame that keeps
to its bounds comes to no fault (`Step.phases_throws`): its program counter points at a byte, the
stack was found to be deep enough before any operand is looked at, what memory is written was found
and paid for, and the accounts are regular and can be read.

`Throws E x s` says that a computation throws nothing but errors of a kind when it is started from
`s`. It is proved along the computation, with what is known of the state at each point.
-/

namespace EvmCore

open Word (InRange)

/-- Started from `s`, a computation throws nothing but errors of a kind. -/
def Throws {ε σ α : Type} (E : ε → Prop) (x : EStateM ε σ α) (s : σ) : Prop :=
  ∀ ⦃e : ε⦄ ⦃s' : σ⦄, x s = .error e s' → E e

/-- Started from `s`, a computation throws nothing. -/
abbrev Succeeds {ε σ α : Type} (x : EStateM ε σ α) (s : σ) : Prop := Throws (fun _ => False) x s

section Throws

variable {ε σ α β : Type} {E : ε → Prop} {x y : EStateM ε σ α} {f : α → EStateM ε σ β}
  {s s' : σ} {a : α}

/-- What throws nothing ends with a value. -/
theorem Succeeds.exists_ok (h : Succeeds x s) : ∃ a s', x s = .ok a s' := by
  cases hx : x s with
  | ok a s' => exact ⟨a, s', rfl⟩
  | error e s' => exact (h hx).elim

/-- What throws nothing throws no error that matters. -/
theorem Succeeds.throws (h : Succeeds x s) : Throws E x s := fun _ _ hx => (h hx).elim

namespace Throws

/-- A computation that is known to end with a value. -/
theorem of_ok (h : x s = .ok a s') : Throws E x s := by
  intro e s₁ hx
  rw [h] at hx
  cases hx

theorem throw {e : ε} (h : E e) : Throws E (throw e : EStateM ε σ α) s := by
  intro e' s' hx
  obtain ⟨rfl, -⟩ := throw_error_iff.mp hx
  exact h

theorem throw_bind {e : ε} (h : E e) :
    Throws E ((MonadExcept.throw e : EStateM ε σ α) >>= f) s := by
  intro e' s' hx
  rcases bind_error_iff.mp hx with hx | ⟨a, s₁, hx, -⟩
  · exact throw h hx
  · exact absurd hx throw_ne_ok

theorem bind (hx : Throws E x s) (hf : ∀ a s', x s = .ok a s' → Throws E (f a) s') :
    Throws E (x >>= f) s := by
  intro e s' h
  rcases bind_error_iff.mp h with hx' | ⟨a, s₁, hx', hf'⟩
  · exact hx hx'
  · exact hf a s₁ hx' hf'

/-- The front of a computation that is known to end with a value. -/
theorem bind_of_ok (hx : x s = .ok a s') (hf : Throws E (f a) s') : Throws E (x >>= f) s := by
  intro e s₁ h
  rw [EvmCore.bind_of_ok hx] at h
  exact hf h

/-- A branch, with what is known of its condition. -/
theorem ite {c : Prop} [Decidable c] (hx : c → Throws E x s) (hy : ¬c → Throws E y s) :
    Throws E (if c then x else y) s := by
  by_cases hc : c
  · rw [if_pos hc]
    exact hx hc
  · rw [if_neg hc]
    exact hy hc

theorem congr (h : x s = y s) (hy : Throws E y s) : Throws E x s := by
  intro e s' hx
  rw [h] at hx
  exact hy hx

end Throws

end Throws

/-! ### Asking the state -/

/-- Every account can be read. -/
def State.Readable (s : State) : Prop := s.world.source.unreadable = ∅

/-- What could be read can still be read. -/
theorem State.Readable.retains {s s' : State} (h : s.Readable) (hs : Retains s s') :
    s'.Readable := by
  unfold State.Readable
  rw [hs.source]
  exact h

section Actions

variable {α β : Type} {E : Fault → Prop} {x : Action α} {y : ViewM α} {f : α → Action β} {s : State}

/-- Where every account can be read, no error says otherwise. -/
theorem State.Readable.not_unreadable (h : s.Readable) {e : Fault} :
    ¬∃ a ∈ s.world.source.unreadable, e = .unreadable a := by
  rintro ⟨a, ha, -⟩
  rw [h] at ha
  exact absurd ha Std.ExtTreeSet.not_mem_empty

/-- What only looks throws nothing but the faults that it may come to. -/
theorem Looks.throws (h : Looks E x) (hs : s.Readable) : Throws E x s := by
  intro e s' hx
  exact (h.error hx).2.resolve_right hs.not_unreadable

/-- What succeeds on what is shown succeeds on the state. -/
theorem Mirrors.succeeds (h : Mirrors x y) (hs : s.Readable) (hy : Succeeds y s.view) :
    Succeeds x s := by
  intro e s' hx
  exact hy ((h.error hx).2.resolve_right hs.not_unreadable)

/-- An operation on the state at the front, with what it leaves to be shown. -/
theorem Mirrors.throws_bind (h : Mirrors x y) (hs : s.Readable) (hy : Succeeds y s.view)
    (hf : ∀ a s', Grows s s' → y s.view = .ok a s'.view → s'.Readable → Throws E (f a) s') :
    Throws E (x >>= f) s := by
  refine Throws.bind (fun e s' hx => (h.succeeds hs hy hx).elim) fun a s' hx => ?_
  obtain ⟨hgrows, hview⟩ := h.ok hx
  exact hf a s' hgrows hview (hs.retains hgrows.toRetains)

/-- Reading what is shown. -/
theorem Mirrors.reads_bind {g : View → α} (h : Mirrors x (View.reads g)) (hs : s.Readable)
    (hf : ∀ s', Quiet s s' → s'.Readable → Throws E (f (g s.view)) s') : Throws E (x >>= f) s := by
  refine Throws.bind (fun e s' hx => (h.succeeds hs nofun hx).elim) fun a s' hx => ?_
  have hquiet := h.quiet hx
  rw [h.answer hx]
  exact hf s' hquiet (hs.retains hquiet.toRetains)

end Actions

/-! ### Changing what is shown -/

namespace View

/-- A balance that is not negative can be set. -/
theorem setBalance_eq {a : Address} {x : Int} {v : View} (h : 0 ≤ x) :
    setBalance a x v = .ok () (v.update a ({ · with balance := x })) :=
  if_neg (not_lt.mpr h)

/-- Value that is there can be moved. -/
theorem transfer_succeeds {sender recipient : Address} {value : Int} {v : View} (hv : v.Solvent)
    (hvalue : 0 ≤ value) (h : value ≤ (v.get sender).balance) :
    Succeeds (transfer sender recipient value) v := by
  refine .bind_of_ok rfl (.bind_of_ok (setBalance_eq (sub_nonneg.mpr h)) (.bind_of_ok rfl ?_))
  -- the recipient has gained, or is the sender
  refine .of_ok (setBalance_eq (Int.add_nonneg ?_ hvalue))
  exact (hv.setBalance (setBalance_eq (sub_nonneg.mpr h))).get recipient

/-- A contract can be destroyed, whoever is to have its balance. -/
theorem selfDestruct_succeeds {self beneficiary : Address} {v : View} (hv : v.Solvent) :
    Succeeds (selfDestruct self beneficiary) v := by
  -- a contract may name itself; the sum is of two balances all the same
  have hsum : 0 ≤ (v.get beneficiary).balance + (v.get self).balance :=
    Int.add_nonneg (hv.get beneficiary) (hv.get self)
  exact .bind_of_ok rfl (.bind_of_ok (setBalance_eq hsum) (.bind_of_ok rfl
    (.bind_of_ok (setBalance_eq le_rfl) (.of_ok rfl))))

end View

/-! ### The parts of a step -/

/-- Whether a step stops short with a failure of its frame. -/
def Stop.IsFailure : Stop → Prop
  | .failure _ => True
  | .fault _ => False

namespace Stack

variable {stack : Stack}

theorem back_of_lt {n : Nat} (h : n < stack.length) : ∃ w, stack.back n = .ok w := by
  refine ⟨stack[n], ?_⟩
  rw [back, List.getElem?_eq_getElem h]

theorem exists_cons (h : 1 ≤ stack.length) : ∃ x rest, stack = x :: rest :=
  List.exists_cons_of_length_pos h

theorem exists_cons_cons (h : 2 ≤ stack.length) : ∃ x y rest, stack = x :: y :: rest := by
  obtain ⟨x, rest, rfl⟩ := exists_cons (Nat.le_of_succ_le h)
  obtain ⟨y, rest, rfl⟩ := exists_cons (Nat.le_of_succ_le_succ h)
  exact ⟨x, y, rest, rfl⟩

theorem exists_cons_cons_cons (h : 3 ≤ stack.length) :
    ∃ x y z rest, stack = x :: y :: z :: rest := by
  obtain ⟨x, y, rest, rfl⟩ := exists_cons_cons (Nat.le_of_succ_le h)
  obtain ⟨z, rest, rfl⟩ := exists_cons (Nat.le_of_succ_le_succ (Nat.le_of_succ_le_succ h))
  exact ⟨x, y, z, rest, rfl⟩

theorem exists_cons_cons_cons_cons (h : 4 ≤ stack.length) :
    ∃ w x y z rest, stack = w :: x :: y :: z :: rest := by
  obtain ⟨w, x, y, rest, rfl⟩ := exists_cons_cons_cons (Nat.le_of_succ_le h)
  obtain ⟨z, rest, rfl⟩ := exists_cons (Nat.le_of_add_le_add_right (b := 3) h)
  exact ⟨w, x, y, z, rest, rfl⟩

theorem place_of_lt {n : Nat} (h : n < stack.length) : stack.place n = n := by
  rw [place, List.getElem?_eq_getElem h]

theorem dup_of_lt {n : Nat} (h : n < stack.length) : stack.dup n = .ok (stack[n] :: stack) := by
  rw [dup, place_of_lt h, List.getElem?_eq_getElem h]

theorem swap_of_lt {n : Nat} (h : n < stack.length) :
    stack.swap n = .ok ((stack.set 0 stack[n]).set n stack[0]) := by
  have hpos : 0 < stack.length := Nat.zero_lt_of_lt h
  rw [swap, place_of_lt h, List.getElem?_eq_getElem h, List.getElem?_eq_getElem hpos]

end Stack

namespace Step

section Parts

variable {f : Frame} {s : State} {E : Stop → Prop} {α β : Type} {x y v : Word} {rest : Stack}

theorem pop_of_cons (h : f.stack = x :: rest) :
    pop ⟨f, s⟩ = .ok x ⟨{ f with stack := rest }, s⟩ := by
  obtain ⟨message, gas, pc, stack, memory, activeWords, memoryDesired, returnData, output,
    mode⟩ := f
  subst h
  rfl

theorem peek_of_cons (h : f.stack = x :: rest) : peek ⟨f, s⟩ = .ok x ⟨f, s⟩ := by
  obtain ⟨message, gas, pc, stack, memory, activeWords, memoryDesired, returnData, output,
    mode⟩ := f
  subst h
  rfl

theorem poke_of_cons (h : f.stack = x :: rest) :
    poke v ⟨f, s⟩ = .ok () ⟨{ f with stack := v :: rest }, s⟩ := by
  obtain ⟨message, gas, pc, stack, memory, activeWords, memoryDesired, returnData, output,
    mode⟩ := f
  subst h
  rfl

theorem modifyFrame_throws (g : Frame → Frame) : Throws E (modifyFrame g) ⟨f, s⟩ := .of_ok rfl

/-- Replacing the word on top, and on to the next instruction. -/
theorem poke_advance_throws (h : f.stack = x :: rest) :
    Throws E (poke v >>= fun _ => advance) ⟨f, s⟩ :=
  .bind_of_ok (poke_of_cons h) (modifyFrame_throws _)

/-- What succeeds on the state throws nothing as a part of a step. -/
theorem liftAction_throws {action : Action α} (h : Succeeds action s) :
    Throws E (liftM action : StepM α) ⟨f, s⟩ := by
  obtain ⟨a, s', hok⟩ := h.exists_ok
  exact .of_ok (liftAction_ok_iff.mpr ⟨s', hok, rfl⟩)

/-- Such a part at the front of a step. -/
theorem liftAction_bind_throws {action : Action α} {g : α → StepM β} (h : Succeeds action s)
    (hg : ∀ a s', action s = .ok a s' → Throws E (g a) ⟨f, s'⟩) :
    Throws E ((liftM action : StepM α) >>= g) ⟨f, s⟩ := by
  refine .bind (liftAction_throws h) fun a a' hlifted => ?_
  obtain ⟨s', hok, rfl⟩ := liftAction_ok_iff.mp hlifted
  exact hg a s' hok

/-- A value at the front of a step. -/
theorem liftExcept_bind_throws {value : Except Fault α} {a : α} {g : α → StepM β}
    (h : value = .ok a) (hg : Throws E (g a) ⟨f, s⟩) :
    Throws E ((liftM value : StepM α) >>= g) ⟨f, s⟩ :=
  .bind_of_ok (liftExcept_ok_iff.mpr ⟨h, rfl⟩) hg

/-- A word that is there can be taken off as bytes. -/
theorem popBytes_of_cons (h : f.stack = x :: rest) (hx : InRange x) :
    ∃ bytes : ByteArray, bytes.size = 32 ∧
      popBytes ⟨f, s⟩ = .ok bytes ⟨{ f with stack := rest }, s⟩ := by
  obtain ⟨bytes, hbytes⟩ := Bytes.ofWord?_of_inRange hx
  refine ⟨bytes, Bytes.size_of_ofWord? hbytes, ?_⟩
  rw [popBytes, EvmCore.bind_of_ok (pop_of_cons h), hbytes]
  rfl

/-- As many topics as there are words can be taken off. -/
theorem popTopics_throws {n : Nat} (hdeep : n ≤ f.stack.length)
    (hstack : ∀ w ∈ f.stack, InRange w) :
    Throws E (popTopics n) ⟨f, s⟩ := by
  -- by induction on the number of topics
  induction n generalizing f with
  | zero => exact .of_ok rfl
  | succ n ih =>
    obtain ⟨x, rest, hcons⟩ := Stack.exists_cons (Nat.le_trans (Nat.le_add_left 1 n) hdeep)
    obtain ⟨hx, hrest⟩ := Stack.forall_of_cons hstack hcons
    obtain ⟨bytes, -, hpop⟩ := popBytes_of_cons (s := s) hcons hx
    rw [hcons] at hdeep
    refine .bind_of_ok hpop (.bind (ih (Nat.le_of_succ_le_succ hdeep) hrest) ?_)
    intro topics a' _
    exact .of_ok rfl

/-- What lies within memory can be written. -/
theorem writeMemory_of_holds {offset : Int} {data : ByteArray}
    (h : Memory.Holds f.memory.size offset data.size) :
    writeMemory offset data ⟨f, s⟩ =
      .ok () ⟨{ f with memory := f.memory.overwrite offset data }, s⟩ := by
  have hcheck := Memory.checkWrite_ok_iff.mpr (h.imp_left Int.ofNat_eq_zero.mp)
  exact modifyMemory_of_ok (Memory.write_ok_iff.mpr ⟨hcheck, rfl⟩)

/-- Copying bytes to a part of memory that was found for them. -/
theorem copyPadded_throws {source : StepM ByteArray} {b : ByteArray}
    {memoryOffset offset length : Int} (hsource : ∀ rest, ∃ s',
      source ⟨{ f with stack := rest }, s⟩ = .ok b ⟨{ f with stack := rest }, s'⟩)
    (hstack : f.stack = memoryOffset :: offset :: length :: rest)
    (hholds : Memory.Holds f.memory.size memoryOffset length)
    (hmemory : (f.memory.size : Int) ≤ Gas.maxMemorySize) (hmemoryOffset : 0 ≤ memoryOffset) :
    Throws E (copyPadded source) ⟨f, s⟩ := by
  refine .bind_of_ok (pop_of_cons hstack)
    (.bind_of_ok (pop_of_cons rfl) (.bind_of_ok (pop_of_cons rfl) ?_))
  refine .ite (fun hlength => ?_) fun _ => modifyFrame_throws _
  obtain ⟨s', hbytes⟩ := hsource rest
  -- what memory holds is far smaller than what can be stored at all
  have hroom : length ≤ Bytes.storableSize := by
    have hmax : Gas.maxMemorySize ≤ Bytes.storableSize := by decide
    rcases hholds with hzero | hle
    · exact absurd hzero hlength.ne'
    · omega
  obtain ⟨data, hdata⟩ := Bytes.padSlice?_of_le b offset hlength.le hroom
  have hsize := Bytes.size_of_padSlice? hlength.le hdata
  refine .bind_of_ok hbytes
    (liftExcept_bind_throws hdata (.bind_of_ok (writeMemory_of_holds ?_) ?_))
  · rw [hsize]
    exact hholds
  · exact modifyFrame_throws _

/-- A jump comes to no fault, if only because a bad one is a failure. -/
theorem jumpTo_throws (dest : Word) : Throws Stop.IsFailure (jumpTo dest) ⟨f, s⟩ := by
  unfold jumpTo
  refine .bind_of_ok rfl ?_
  split
  · exact modifyFrame_throws _
  · exact .throw_bind trivial

/-- A copy of the data of the last call comes to no fault, where memory was found for it. -/
theorem copyReturnData_throws {memoryOffset offset length : Word} {rest : Stack}
    (hstack : f.stack = memoryOffset :: offset :: length :: rest) (hoffset : 0 ≤ offset)
    (hlength : 0 ≤ length) (hholds : Memory.Holds f.memory.size memoryOffset length) :
    Throws Stop.IsFailure copyReturnData ⟨f, s⟩ := by
  refine .bind_of_ok (pop_of_cons hstack)
    (.bind_of_ok (pop_of_cons rfl) (.bind_of_ok (pop_of_cons rfl) (.bind_of_ok rfl ?_)))
  -- data that is not there is a failure
  refine .ite (fun _ => .throw_bind trivial) fun hsize => ?_
  refine .bind_of_ok (writeMemory_of_holds ?_) (modifyFrame_throws _)
  rw [Bytes.size_slice_of_le hoffset hlength (not_lt.mp hsize)]
  exact hholds

/-- The operands of a call can be looked at. -/
theorem callRequest_of_le {kind : CallKind} (forwarded : Int)
    (h : callOperands kind ≤ f.stack.length) :
    ∃ r, callRequest kind f forwarded = .ok r := by
  -- each operand is among the words that the stack was found to hold
  have hback (n : Nat) (hn : n < callOperands kind) : ∃ w, f.stack.back n = .ok w :=
    Stack.back_of_lt (hn.trans_le h)
  cases kind with
  | call | callCode =>
    obtain ⟨x₁, h₁⟩ := hback 1 (by decide)
    obtain ⟨x₂, h₂⟩ := hback 2 (by decide)
    obtain ⟨x₃, h₃⟩ := hback 3 (by decide)
    obtain ⟨x₄, h₄⟩ := hback 4 (by decide)
    obtain ⟨x₅, h₅⟩ := hback 5 (by decide)
    obtain ⟨x₆, h₆⟩ := hback 6 (by decide)
    rw [callRequest, Stack.backAddress, h₁, h₂, h₃, h₄, h₅, h₆]
    exact ⟨_, rfl⟩
  | delegateCall | staticCall =>
    obtain ⟨x₁, h₁⟩ := hback 1 (by decide)
    obtain ⟨x₂, h₂⟩ := hback 2 (by decide)
    obtain ⟨x₃, h₃⟩ := hback 3 (by decide)
    obtain ⟨x₄, h₄⟩ := hback 4 (by decide)
    obtain ⟨x₅, h₅⟩ := hback 5 (by decide)
    rw [callRequest, Stack.backAddress, h₁, h₂, h₃, h₄, h₅]
    exact ⟨_, rfl⟩

end Parts

/-- **An instruction comes to no fault** on a frame that keeps to its bounds, has its operands and
holds in memory what the instruction writes. -/
theorem run_throws {ctx : Context} {forwarded : Int} {op : Opcode} {operation : Operation}
    {f : Frame} {s : State} (hop : op.operation? = some operation)
    (hdeep : operation.delta ≤ f.stack.length) (hf : f.Bounded)
    (hwithin : operation.memory.Within f.stack f.memory.size) (hview : s.view.Regular)
    (hs : s.Readable) : Throws Stop.IsFailure (run ctx forwarded op) ⟨f, s⟩ := by
  cases op with
  | stop => exact modifyFrame_throws ({ · with mode := .exited .halted })
  -- arithmetic
  | unary op =>
    obtain rfl := Option.some.inj hop
    obtain ⟨x, rest, hstack⟩ := Stack.exists_cons hdeep
    exact .bind_of_ok (peek_of_cons hstack) (poke_advance_throws hstack)
  | binary op =>
    have hdelta : operation.delta = 2 := by
      -- every operation on two words takes both of them
      cases op <;> (obtain rfl := Option.some.inj hop; rfl)
    obtain ⟨x, y, rest, hstack⟩ := Stack.exists_cons_cons (hdelta ▸ hdeep)
    obtain ⟨hx, hy, -⟩ := Stack.forall_of_cons_cons hf.stack hstack
    exact .bind_of_ok (pop_of_cons hstack) (.bind_of_ok (peek_of_cons rfl)
      (liftExcept_bind_throws (op.check_of_inRange hx hy) (poke_advance_throws rfl)))
  | ternary op =>
    obtain rfl := Option.some.inj hop
    obtain ⟨x, y, z, rest, hstack⟩ := Stack.exists_cons_cons_cons hdeep
    exact .bind_of_ok (pop_of_cons hstack)
      (.bind_of_ok (pop_of_cons rfl) (.bind_of_ok (peek_of_cons rfl) (poke_advance_throws rfl)))
  | keccak =>
    obtain rfl := Option.some.inj hop
    obtain ⟨x, y, rest, hstack⟩ := Stack.exists_cons_cons hdeep
    exact .bind_of_ok (pop_of_cons hstack) (.bind_of_ok (peek_of_cons rfl) (.bind_of_ok rfl
      (poke_advance_throws rfl)))
  -- what the frame, the context and the accounts hold
  | environment item => exact .bind_of_ok rfl (.bind_of_ok rfl (modifyFrame_throws _))
  | account query =>
    obtain rfl := Option.some.inj hop
    obtain ⟨x, rest, hstack⟩ := Stack.exists_cons hdeep
    exact .bind_of_ok (peek_of_cons hstack) (liftAction_bind_throws
      ((queryAccount_mirrors _ query).succeeds hs nofun) fun _ _ _ => poke_advance_throws hstack)
  | selfBalance =>
    exact .bind_of_ok rfl (liftAction_bind_throws ((World.balance_mirrors _).succeeds hs nofun)
      fun _ _ _ => .bind_of_ok rfl (modifyFrame_throws _))
  | callDataLoad =>
    obtain rfl := Option.some.inj hop
    obtain ⟨x, rest, hstack⟩ := Stack.exists_cons hdeep
    exact .bind_of_ok rfl (.bind_of_ok (peek_of_cons hstack) (poke_advance_throws hstack))
  | blockHash =>
    obtain rfl := Option.some.inj hop
    obtain ⟨x, rest, hstack⟩ := Stack.exists_cons hdeep
    exact .bind_of_ok (peek_of_cons hstack) (poke_advance_throws hstack)
  -- copies to memory
  | copy source =>
    obtain rfl := Option.some.inj hop
    obtain ⟨memoryOffset, offset, length, rest, hstack⟩ := Stack.exists_cons_cons_cons hdeep
    obtain ⟨hmemoryOffset, hoffset, hlength, -⟩ := Stack.forall_of_cons_cons_cons hf.stack hstack
    -- what was found for the instruction is the region that it writes
    have hholds := hwithin memoryOffset length (by rw [hstack]; rfl) (by rw [hstack]; rfl)
    cases source with
    | callData =>
      exact copyPadded_throws (b := f.message.input) (fun _ => ⟨s, rfl⟩) hstack hholds hf.memory
        hmemoryOffset.1
    | code =>
      exact copyPadded_throws (b := f.message.code.bytes)
        (fun _ => ⟨s, rfl⟩) hstack hholds hf.memory hmemoryOffset.1
    | returnData => exact copyReturnData_throws hstack hoffset.1 hlength.1 hholds
  | accountCodeCopy =>
    obtain rfl := Option.some.inj hop
    obtain ⟨x, memoryOffset, offset, length, rest, hstack⟩ := Stack.exists_cons_cons_cons_cons hdeep
    obtain ⟨-, hmemoryOffset, -, -⟩ := Stack.forall_of_cons_cons_cons hf.stack hstack
    have hholds := hwithin memoryOffset length (by rw [hstack]; rfl) (by rw [hstack]; rfl)
    obtain ⟨bytes, s', hcode⟩ :=
      ((World.code_mirrors (Address.ofWord x)).succeeds hs nofun).exists_ok
    refine .bind_of_ok (pop_of_cons hstack) (copyPadded_throws (b := bytes) (fun _ => ⟨s', ?_⟩) rfl
      hholds hf.memory hmemoryOffset.1)
    exact liftAction_ok_iff.mpr ⟨s', hcode, rfl⟩
  -- memory and storage
  | memoryLoad =>
    obtain rfl := Option.some.inj hop
    obtain ⟨x, rest, hstack⟩ := Stack.exists_cons hdeep
    exact .bind_of_ok rfl (.bind_of_ok (peek_of_cons hstack) (poke_advance_throws hstack))
  | memoryStore =>
    obtain rfl := Option.some.inj hop
    obtain ⟨offset, v, rest, hstack⟩ := Stack.exists_cons_cons hdeep
    obtain ⟨-, hv, -⟩ := Stack.forall_of_cons_cons hf.stack hstack
    have hrest : ({ f with stack := v :: rest } : Frame).stack = v :: rest := rfl
    obtain ⟨bytes, hsize, hpop⟩ := popBytes_of_cons (s := s) hrest hv
    have hholds : Memory.Holds f.memory.size offset bytes.size := by
      rw [hsize]
      exact hwithin offset (by rw [hstack]; rfl)
    have hwrite := writeMemory_of_holds (f := { f with stack := rest }) (s := s) hholds
    rw [writeMemory, funext fun m : Memory => (m.writeWord_eq_write hsize).symm] at hwrite
    exact .bind_of_ok (pop_of_cons hstack)
      (.bind_of_ok hpop (.bind_of_ok hwrite (modifyFrame_throws _)))
  | memoryStoreByte =>
    obtain rfl := Option.some.inj hop
    obtain ⟨offset, v, rest, hstack⟩ := Stack.exists_cons_cons hdeep
    obtain ⟨hoffset, -, -⟩ := Stack.forall_of_cons_cons hf.stack hstack
    have hholds := hwithin offset (by rw [hstack]; rfl)
    -- the byte lies within memory, and the offset does not count from the end
    have hindex : ∃ i, f.memory.byteIndex offset = .ok i := by
      refine ⟨offset.toNat, ?_⟩
      rw [Memory.byteIndex, if_neg (not_lt.mpr hoffset.1),
        if_pos ⟨hoffset.1, hholds.resolve_left one_ne_zero⟩]
    obtain ⟨i, hindex⟩ := hindex
    exact .bind_of_ok (pop_of_cons hstack) (.bind_of_ok (pop_of_cons rfl) (.bind_of_ok rfl
      (liftExcept_bind_throws hindex (.bind_of_ok rfl (modifyFrame_throws _)))))
  | storageLoad =>
    obtain rfl := Option.some.inj hop
    obtain ⟨x, rest, hstack⟩ := Stack.exists_cons hdeep
    exact .bind_of_ok rfl (.bind_of_ok (peek_of_cons hstack) (liftAction_bind_throws
      ((World.storage_mirrors _ _).succeeds hs nofun) fun _ _ _ => poke_advance_throws hstack))
  | storageStore =>
    obtain rfl := Option.some.inj hop
    obtain ⟨key, value, rest, hstack⟩ := Stack.exists_cons_cons hdeep
    -- a counter that is covered pays for every write
    have hstores : Succeeds (View.storeSlot f.message.self key value) s.view :=
      .of_ok (View.storeSlot_eq hview.refund _ _ _)
    exact .bind_of_ok (pop_of_cons hstack) (.bind_of_ok (pop_of_cons rfl) (.bind_of_ok rfl
      (liftAction_bind_throws ((storeSlot_mirrors _ _ _).succeeds hs hstores) fun _ _ _ =>
        modifyFrame_throws _)))
  -- jumps
  | jump =>
    obtain rfl := Option.some.inj hop
    obtain ⟨dest, rest, hstack⟩ := Stack.exists_cons hdeep
    exact .bind_of_ok (pop_of_cons hstack) (jumpTo_throws dest)
  | jumpIf =>
    obtain rfl := Option.some.inj hop
    obtain ⟨dest, condition, rest, hstack⟩ := Stack.exists_cons_cons hdeep
    exact .bind_of_ok (pop_of_cons hstack) (.bind_of_ok (pop_of_cons rfl)
      (.ite (fun _ => jumpTo_throws dest) fun _ => modifyFrame_throws _))
  | jumpDest => exact modifyFrame_throws fun f => { f with pc := f.pc + 1 }
  -- the stack
  | pop =>
    obtain rfl := Option.some.inj hop
    obtain ⟨x, rest, hstack⟩ := Stack.exists_cons hdeep
    exact .bind_of_ok (.trans (congrFun (discard_eq pop) _) (bind_of_ok (pop_of_cons hstack)))
      (modifyFrame_throws _)
  | push n =>
    rw [run]
    exact modifyFrame_throws _
  | dup n =>
    obtain rfl := Option.some.inj hop
    have hlt : n.val < f.stack.length := hdeep
    exact .bind_of_ok rfl
      (liftExcept_bind_throws (Stack.dup_of_lt hlt) (.bind_of_ok rfl (modifyFrame_throws _)))
  | swap n =>
    obtain rfl := Option.some.inj hop
    have hlt : n.val + 1 < f.stack.length := hdeep
    exact .bind_of_ok rfl
      (liftExcept_bind_throws (Stack.swap_of_lt hlt) (.bind_of_ok rfl (modifyFrame_throws _)))
  | log n =>
    obtain rfl := Option.some.inj hop
    obtain ⟨offset, size, rest, hstack⟩ :=
      Stack.exists_cons_cons ((Nat.le_add_left 2 n.val).trans hdeep)
    obtain ⟨-, -, hrest⟩ := Stack.forall_of_cons_cons hf.stack hstack
    have hdeep : n.val ≤ rest.length := by
      rw [hstack] at hdeep
      exact Nat.le_of_add_le_add_right (b := 2) hdeep
    refine .bind_of_ok (pop_of_cons hstack) (.bind_of_ok (pop_of_cons rfl)
      (.bind (popTopics_throws hdeep hrest) fun topics a' _ => ?_))
    -- the topics leave some frame behind; nothing of it is needed
    obtain ⟨f', s'⟩ := a'
    exact .bind_of_ok rfl (.bind_of_ok rfl (liftAction_bind_throws (.of_ok rfl) fun _ _ _ =>
      modifyFrame_throws _))
  -- requests
  | create kind =>
    cases kind with
    | create =>
      obtain rfl := Option.some.inj hop
      obtain ⟨x, y, z, rest, hstack⟩ := Stack.exists_cons_cons_cons hdeep
      exact .bind_of_ok (pop_of_cons hstack)
        (.bind_of_ok (pop_of_cons rfl) (.bind_of_ok (pop_of_cons rfl) (.of_ok rfl)))
    | create2 =>
      obtain rfl := Option.some.inj hop
      obtain ⟨x, y, z, salt, rest, hstack⟩ := Stack.exists_cons_cons_cons_cons hdeep
      exact .bind_of_ok (pop_of_cons hstack)
        (.bind_of_ok (pop_of_cons rfl) (.bind_of_ok (pop_of_cons rfl) (.of_ok rfl)))
  | call kind =>
    -- the table lists all the operands of a call
    have hdelta : operation.delta = callOperands kind := by
      cases kind <;> (obtain rfl := Option.some.inj hop; rfl)
    obtain ⟨r, hrequest⟩ := callRequest_of_le forwarded (hdelta ▸ hdeep)
    exact .bind_of_ok rfl (liftExcept_bind_throws hrequest (modifyFrame_throws _))
  -- the end of the frame
  | «return» =>
    obtain rfl := Option.some.inj hop
    obtain ⟨offset, size, rest, hstack⟩ := Stack.exists_cons_cons hdeep
    exact .bind_of_ok (pop_of_cons hstack) (.bind_of_ok (pop_of_cons rfl) (.bind_of_ok rfl
      (modifyFrame_throws _)))
  | revert =>
    obtain rfl := Option.some.inj hop
    obtain ⟨offset, size, rest, hstack⟩ := Stack.exists_cons_cons hdeep
    exact .bind_of_ok (pop_of_cons hstack) (.bind_of_ok (pop_of_cons rfl) (.bind_of_ok rfl
      (modifyFrame_throws _)))
  | invalid => exact .throw trivial
  | selfDestruct =>
    obtain rfl := Option.some.inj hop
    obtain ⟨x, rest, hstack⟩ := Stack.exists_cons hdeep
    exact .bind_of_ok (pop_of_cons hstack) (.bind_of_ok rfl (liftAction_bind_throws
      ((selfDestruct_mirrors _ _).succeeds hs (View.selfDestruct_succeeds hview.solvent))
        fun _ _ _ => modifyFrame_throws _))

end Step

/-! ### The phases of a step -/

/-- How many operands are looked at to find the memory that an instruction uses. -/
def MemoryUse.operands : MemoryUse → Nat
  | .none => 0
  | .region offset length => max offset length + 1
  | .fixed offset _ => offset + 1
  | .callRegions input => input + 4

/-- What is looked at before an instruction runs is among the words that it takes. -/
theorem Opcode.operands_le {op : Opcode} {operation : Operation}
    (h : op.operation? = some operation) :
    operation.memory.operands ≤ operation.delta ∧ operation.dynamic.operands ≤ operation.delta := by
  -- the table, entry by entry
  cases op with
  | binary op => cases op <;> (obtain rfl := Option.some.inj h; exact ⟨by decide, by decide⟩)
  | create kind => cases kind <;> (obtain rfl := Option.some.inj h; exact ⟨by decide, by decide⟩)
  | call kind => cases kind <;> (obtain rfl := Option.some.inj h; exact ⟨by decide, by decide⟩)
  | log n =>
    obtain rfl := Option.some.inj h
    exact ⟨Nat.le_add_left 2 n.val, Nat.le_add_left 2 n.val⟩
  | dup n | swap n =>
    obtain rfl := Option.some.inj h
    exact ⟨Nat.zero_le _, Nat.zero_le _⟩
  | invalid => cases h
  | _ =>
    obtain rfl := Option.some.inj h
    exact ⟨by decide, by decide⟩

/-- The memory that an instruction uses can be found from its operands. -/
theorem MemoryUse.size?_of_le {use : MemoryUse} {stack : Stack} (h : use.operands ≤ stack.length) :
    ∃ size, use.size? stack = .ok size := by
  have hback (n : Nat) (hn : n < use.operands) : ∃ w, stack.back n = .ok w :=
    Stack.back_of_lt (hn.trans_le h)
  cases use with
  | none => exact ⟨_, rfl⟩
  | region offset length =>
    obtain ⟨o, ho⟩ := hback offset (Nat.lt_succ_of_le (le_max_left offset length))
    obtain ⟨l, hl⟩ := hback length (Nat.lt_succ_of_le (le_max_right offset length))
    rw [size?, ho, hl]
    exact ⟨_, rfl⟩
  | fixed offset length =>
    obtain ⟨o, ho⟩ := hback offset (Nat.lt_succ_self offset)
    rw [size?, ho]
    exact ⟨_, rfl⟩
  | callRegions input =>
    obtain ⟨x₀, h₀⟩ := hback input (Nat.lt_add_of_pos_right (by decide))
    obtain ⟨x₁, h₁⟩ := hback (input + 1) (Nat.add_lt_add_left (by decide) input)
    obtain ⟨x₂, h₂⟩ := hback (input + 2) (Nat.add_lt_add_left (by decide) input)
    obtain ⟨x₃, h₃⟩ := hback (input + 3) (Nat.add_lt_add_left (by decide) input)
    rw [size?, h₀, h₁, h₂, h₃]
    -- the regions are measured one after the other, and the first that cannot be measured ends it
    cases houtput : Gas.memorySize? x₂ x₃ with
    | none => exact ⟨_, by dsimp only [bind, Except.bind]; rw [houtput]; rfl⟩
    | some output =>
      cases hinput : Gas.memorySize? x₀ x₁ with
      | none => exact ⟨_, by dsimp only [bind, Except.bind]; rw [houtput, hinput]; rfl⟩
      | some input => exact ⟨_, by dsimp only [bind, Except.bind]; rw [houtput, hinput]; rfl⟩

/-- Words that are there are not lacking. -/
theorem Stack.not_lacks {stack : Stack} {n : Nat} {e : Fault} (h : n ≤ stack.length) :
    ¬stack.Lacks n e := by
  rintro ⟨i, hi, hback⟩
  obtain ⟨w, hw⟩ := back_of_lt (hi.trans_le h)
  rw [hw] at hback
  cases hback

namespace Step

section Phases

variable {ctx : Context} {f : Frame} {s : State} {op : Opcode} {operation : Operation}

/-- The check of the stack comes to no fault. -/
theorem checkStack_throws : Throws Stop.IsFailure (checkStack operation) ⟨f, s⟩ := by
  refine .bind_of_ok rfl (.ite (fun _ => ?_) fun _ => ?_)
  · exact .throw_bind trivial
  · exact .ite (fun _ => .throw trivial) fun _ => .of_ok rfl

/-- Nor does the check of what must not be written, if the value of a call is there. -/
theorem checkReadOnly_throws (h : op = .call .call → 2 < f.stack.length) :
    Throws Stop.IsFailure (checkReadOnly op operation) ⟨f, s⟩ := by
  refine .bind_of_ok rfl
    (.ite (fun _ => .ite (fun _ => ?_) fun _ => .ite (fun hcall => ?_) fun _ => ?_)
      fun _ => .of_ok rfl)
  · exact .throw_bind trivial
  · -- only for a call the stack is looked at
    obtain ⟨value, hvalue⟩ := Stack.back_of_lt (h hcall)
    exact liftExcept_bind_throws hvalue (.ite (fun _ => .throw trivial) fun _ => .of_ok rfl)
  · exact .of_ok rfl

/-- Nor does a payment. -/
theorem useGas_throws (gas : Int) : Throws Stop.IsFailure (useGas gas) ⟨f, s⟩ := by
  rw [useGas_eq]
  exact .bind_of_ok rfl (.ite (fun _ => .throw trivial) fun _ => modifyFrame_throws _)

/-- Nor does finding the size of the memory, if its operands are there. -/
theorem findMemorySize_throws (h : operation.memory.operands ≤ f.stack.length) :
    Throws Stop.IsFailure (findMemorySize operation) ⟨f, s⟩ := by
  obtain ⟨size, hsize⟩ := MemoryUse.size?_of_le h
  refine .bind_of_ok rfl (liftExcept_bind_throws hsize ?_)
  cases size with
  | none => exact .throw trivial
  | some size => exact modifyFrame_throws _

/-- Nor does finding and paying the dynamic cost, if its operands are there. -/
theorem payDynamic_throws (h : operation.dynamic.operands ≤ f.stack.length) (hs : s.Readable) :
    Throws Stop.IsFailure (payDynamic operation) ⟨f, s⟩ := by
  have hlooks := Gas.dynamic_looks operation.dynamic f f.memoryDesired
  refine .bind_of_ok rfl
    -- what is looked for on the stack is not lacking, and the accounts can be read
    (liftAction_bind_throws (fun e s' he => Stack.not_lacks h (hlooks.throws hs he)) ?_)
  intro charge s' _
  cases charge with
  | none => exact .throw trivial
  | some charge => exact .bind (useGas_throws _) fun _ _ _ => .of_ok rfl

/-- An instruction that was prepared has what it needs. -/
theorem run_throws_of_prepared {charge : Gas.Charge} {f₁ : Frame} {s₁ : State} {forwarded : Int}
    (h : Prepared f s op operation charge f₁ s₁) (hf : f.Bounded) (hmode : f.mode = .running)
    (hview : s.view.Regular) (hs : s.Readable) :
    Throws Stop.IsFailure (run ctx forwarded op) ⟨f₁, s₁⟩ := by
  -- the bound that was checked is on a signed length
  have hdeep : operation.delta ≤ f.stack.length := Int.ofNat_le.mp h.deep
  refine run_throws h.isAt.operation? ?_ (h.bounded hf hmode) ?_ ?_ (hs.retains h.quiet.toRetains)
  · rw [h.stack]
    exact hdeep
  · rw [h.stack]
    exact h.within
  · rw [h.quiet.view_eq]
    exact hview

/-- The payments and the instruction. -/
theorem paying_throws {s₀ : State} (hat : f.IsAt op operation)
    (hmin : operation.minStack ≤ f.stack.length) (hmax : f.stack.length ≤ operation.maxStack)
    (hallowed : f.message.readOnly = true →
      operation.writes = false ∧ (op = .call .call → f.stack.back 2 = .ok 0))
    (hquiet : Quiet s s₀) (hf : f.Bounded) (hmode : f.mode = .running) (hview : s.view.Regular)
    (hs : s.Readable) : Throws Stop.IsFailure (paying ctx op operation) ⟨f, s₀⟩ := by
  -- the check of the stack came first, so every operand that is looked at later is there
  have hdeep : operation.delta ≤ f.stack.length := Int.ofNat_le.mp hmin
  obtain ⟨hmemory, hdynamic⟩ := Opcode.operands_le hat.operation?
  refine .bind (useGas_throws _) fun _ a₁ huse => ?_
  obtain ⟨hgas, rfl⟩ := useGas_ok_iff.mp huse
  refine .bind (findMemorySize_throws (hmemory.trans hdeep)) fun _ a₂ hfind => ?_
  obtain ⟨size, hsize, rfl⟩ := findMemorySize_ok hfind
  refine .bind (payDynamic_throws (hdynamic.trans hdeep) (hs.retains hquiet.toRetains))
    fun _ a₃ hpay => ?_
  obtain ⟨charge, s₁, hcharge, hpaid, rfl, rfl⟩ := payDynamic_ok hpay
  have hprepared : Prepared f s op operation charge
      ((f.spent operation.constantGas size).spent charge.gas size).grown s₁ :=
    ⟨hat, hmin, hmax, hallowed, hgas, ⟨size, s₀, hsize, hquiet, hcharge, rfl⟩, hpaid⟩
  -- what was paid for is within the bound on memory, so there is room for it
  have hle := hprepared.memory_le hf.memory
  rw [Frame.size_grown_memory] at hle
  exact .bind_of_ok (growMemory_of_le s₁ ((le_max_right _ _).trans hle))
    (run_throws_of_prepared hprepared hf hmode hview hs)

/-- **A step comes to no fault**, if its frame keeps to its bounds and the accounts
are regular and can be read. -/
theorem phases_throws (hf : f.Bounded) (hpc : 0 ≤ f.pc) (hmode : f.mode = .running)
    (hview : s.view.Regular) (hs : s.Readable) : Throws Stop.IsFailure (phases ctx) ⟨f, s⟩ := by
  by_cases hat : ∃ op operation, f.IsAt op operation
  · obtain ⟨op, operation, hat⟩ := hat
    have hthrows : Throws Stop.IsFailure (do
        recordStep op
        checkStack operation
        checkReadOnly op operation
        paying ctx op operation) ⟨f, s⟩ := by
      refine .bind (.of_ok rfl) fun _ a₁ hrecord => ?_
      obtain ⟨s₀, hquiet, rfl⟩ := recordStep_ok hrecord
      refine .bind checkStack_throws fun _ a₂ hstack => ?_
      obtain ⟨hmin, hmax, rfl⟩ := checkStack_ok hstack
      -- to see whether a plain call sends value, its third operand is looked at
      have hcall : op = .call .call → 2 < f.stack.length := by
        rintro rfl
        obtain rfl := Option.some.inj hat.operation?
        exact (by decide : 2 < 7).trans_le (Int.ofNat_le.mp hmin)
      refine .bind (checkReadOnly_throws hcall) fun _ a₃ hread => ?_
      obtain ⟨hallowed, rfl⟩ := checkReadOnly_ok hread
      exact paying_throws hat hmin hmax hallowed hquiet hf hmode hview hs
    exact .congr (phases_of_isAt hat) hthrows
  · push Not at hat
    intro e a h
    obtain hinvalid | ⟨-, hnone⟩ := phases_of_not_isAt ctx s hat
    · cases hinvalid.symm.trans h
      trivial
    · -- a program counter that is not negative points at a byte, if only at a zero past the end
      cases hnone.symm.trans (fetch?_of_nonneg _ hpc)

end Phases

end Step

/-- Such a step leaves a frame, whether it fails or not. -/
theorem step_succeeds {ctx : Context} {f : Frame} {s : State} (hf : f.Bounded) (hpc : 0 ≤ f.pc)
    (hmode : f.mode = .running) (hview : s.view.Regular) (hs : s.Readable) :
    Succeeds (step ctx) ⟨f, s⟩ := by
  have hphases : Throws Stop.IsFailure (Step.phases ctx) ⟨f, s⟩ :=
    Step.phases_throws hf hpc hmode hview hs
  intro e a h
  unfold step at h
  split at h
  · cases h
  · cases h
  · next hfault => exact hphases hfault

end EvmCore
