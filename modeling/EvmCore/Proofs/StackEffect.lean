import EvmCore.Proofs.Faultless
import Mathlib

/-!
# What a part of a step does to the stack

`HasArity n m x` says that the part `x` of a step takes `n` words from the stack and leaves `m`.
This is meant of all that `x` does: given at least `n` words, `x` runs the same whatever else lies
below them, with the same values, failures and faults, and what lies below is there untouched in the
end (`HasArity.onto`). So `x` can neither read nor remove more than the top `n` words. Arities
compose like the types of a stack language, and the table of operations turns out to list those of
the instructions (`HasArity.run`) and of everything that a step does once the stack has passed its
check (`HasArity.checked`).
-/

namespace EvmCore

/-- The frame with more words below its stack. -/
def Frame.onto (f : Frame) (below : Stack) : Frame := { f with stack := f.stack ++ below }

/-- The activation with more words below the stack of its frame. -/
def Activation.onto (a : Activation) (below : Stack) : Activation := ⟨a.frame.onto below, a.state⟩

/-! ### Stacks with more words below -/

namespace Stack

variable {stack stack' below : Stack} {i n : Nat}

/-- A word of the upper part is found there. -/
theorem back_append (h : i < stack.length) : (stack ++ below).back i = stack.back i := by
  rw [back, back, List.getElem?_append_left h]

/-- So is an address. -/
theorem backAddress_append (h : i < stack.length) :
    (stack ++ below).backAddress i = stack.backAddress i := by
  rw [backAddress, backAddress, back_append h]

/-- A copy of a word of the upper part. -/
theorem dup_append (h : n < stack.length) :
    (stack ++ below).dup n = (stack.dup n).map (· ++ below) := by
  have hlonger : n < (stack ++ below).length := by
    rw [List.length_append]
    omega
  rw [dup_of_lt h, dup_of_lt hlonger, List.getElem_append_left h]
  rfl

/-- A swap within the upper part. -/
theorem swap_append (h : n < stack.length) :
    (stack ++ below).swap n = (stack.swap n).map (· ++ below) := by
  have hlonger : n < (stack ++ below).length := by
    rw [List.length_append]
    omega
  have hpos : 0 < stack.length := Nat.zero_lt_of_lt h
  -- both places lie in the upper part, and so does what `set` changes
  rw [swap_of_lt h, swap_of_lt hlonger, List.getElem_append_left h, List.getElem_append_left hpos,
    List.set_append_left _ _ hpos, List.set_append_left _ _ (by rwa [List.length_set])]
  rfl

/-- What is discarded from the upper part. -/
theorem discard_append (h : n ≤ stack.length) :
    (stack ++ below).discard n = stack.discard n ++ below := by
  rw [discard, discard, if_pos h, if_pos (by rw [List.length_append]; omega),
    List.drop_append_of_le_length h]

end Stack

/-- The memory that is used is found from the operands alone. -/
theorem MemoryUse.size?_append {use : MemoryUse} {stack : Stack} (h : use.operands ≤ stack.length)
    (below : Stack) : use.size? (stack ++ below) = use.size? stack := by
  -- one case for each way to use memory, with as many words as it looks at
  cases use with
  | none => rfl
  | region offset length =>
    have hmax : max offset length + 1 ≤ stack.length := h
    simp (disch := omega) only [size?, Stack.back_append]
  | fixed offset length =>
    have hoffset : offset + 1 ≤ stack.length := h
    simp (disch := omega) only [size?, Stack.back_append]
  | callRegions input =>
    have hinput : input + 4 ≤ stack.length := h
    simp (disch := omega) only [size?, Stack.back_append]

namespace Gas

/-- The dynamic cost is found from its operands. -/
theorem dynamic_onto {cost : DynamicCost} {f : Frame} (h : cost.operands ≤ f.stack.length)
    (size : Int) (below : Stack) : dynamic cost (f.onto below) size = dynamic cost f size := by
  -- one case for each cost, with as many words as it looks at
  cases cost with
  | none => rfl
  | memory => rfl
  | perWord price length =>
    have hlength : length + 1 ≤ f.stack.length := h
    simp (disch := omega) only [dynamic, perWordCost, growth?, Frame.onto, Stack.back_append]
  | call kind =>
    cases kind with
    | call | callCode =>
      have hoperands : 3 ≤ f.stack.length := h
      simp (disch := omega) only [dynamic, callCharge, growth?, Frame.onto, Stack.back_append,
        Stack.backAddress_append]
    | delegateCall | staticCall =>
      have hoperands : 2 ≤ f.stack.length := h
      simp (disch := omega) only [dynamic, callCharge, growth?, Frame.onto, Stack.back_append,
        Stack.backAddress_append]
  | accountCodeCopy =>
    have hoperands : 4 ≤ f.stack.length := h
    simp (disch := omega) only [dynamic, perWordCost, growth?, Frame.onto, Stack.back_append,
      Stack.backAddress_append]
  | exp | log topics | storageStore =>
    have hoperands : 2 ≤ f.stack.length := h
    simp (disch := omega) only [dynamic, growth?, Frame.onto, Stack.back_append]
  | account | storageLoad | selfDestruct =>
    have hoperands : 1 ≤ f.stack.length := h
    simp (disch := omega) only [dynamic, Frame.onto, Stack.back_append, Stack.backAddress_append]

end Gas

namespace Step

/-- What a call requests is found from its operands alone. -/
theorem callRequest_onto {kind : CallKind} {f : Frame} (h : callOperands kind ≤ f.stack.length)
    (below : Stack) (forwarded : Int) : callRequest kind (f.onto below) forwarded =
      callRequest kind f forwarded := by
  cases kind with
  | call | callCode =>
    have hoperands : 7 ≤ f.stack.length := h
    simp (disch := omega) only [callRequest, Frame.onto, Stack.back_append,
      Stack.backAddress_append]
  | delegateCall | staticCall =>
    have hoperands : 6 ≤ f.stack.length := h
    simp (disch := omega) only [callRequest, Frame.onto, Stack.back_append,
      Stack.backAddress_append]

/-! ### Arities -/

/-- `x` takes `n` words from the stack and leaves `m`: what lies below these makes no
difference to it, and stays. -/
structure HasArity {α : Type} (n m : Nat) (x : StepM α) : Prop where
  onto : ∀ {f : Frame} {s : State} (below : Stack), n ≤ f.stack.length →
    x ⟨f.onto below, s⟩ = mapResult id (·.onto below) (x ⟨f, s⟩)
  length : ∀ {f f' : Frame} {s s' : State} {a : α}, n ≤ f.stack.length → x ⟨f, s⟩ = .ok a ⟨f', s'⟩ →
    f'.stack.length + n = f.stack.length + m

namespace HasArity

variable {α β : Type} {n m k : Nat} {x y : StepM α} {f f' : Frame} {s s' : State} {a : α}

/-- **A part of a step is settled by the words that it takes.** -/
theorem eq_of_take (h : HasArity n m x) (hf : n ≤ f.stack.length) : x ⟨f, s⟩ =
    mapResult id (·.onto (f.stack.drop n)) (x ⟨{ f with stack := f.stack.take n }, s⟩) := by
  -- the frame is its top words, put onto the rest
  have honto := h.onto (f := { f with stack := f.stack.take n }) (s := s) (f.stack.drop n)
    (List.length_take_of_le hf).ge
  rw [← honto, Frame.onto]
  dsimp only
  rw [List.take_append_drop]

/-- **What a part of a step leaves** lies on top of what it did not take. -/
theorem stack_eq (h : HasArity n m x) (hf : n ≤ f.stack.length) (hx : x ⟨f, s⟩ = .ok a ⟨f', s'⟩) :
    ∃ results, f'.stack = results ++ f.stack.drop n ∧ results.length = m := by
  rw [h.eq_of_take hf] at hx
  obtain ⟨⟨f₁, s₁⟩, hx, ha⟩ := mapResult_ok_iff.mp hx
  -- there are just as many words as are taken
  have htake : (f.stack.take n).length = n := List.length_take_of_le hf
  have hlength := h.length htake.ge hx
  dsimp only at hlength
  refine ⟨f₁.stack, congrArg (·.frame.stack) ha, ?_⟩
  omega

theorem pure (a : α) : HasArity n n (pure a : StepM α) where
  onto _ _ := rfl
  length _ hx := by
    obtain ⟨-, hf⟩ := pure_ok_iff.mp hx
    cases hf
    rfl

theorem throw (e : Stop) : HasArity n m (throw e : StepM α) where
  onto _ _ := rfl
  length _ hx := absurd hx throw_ne_ok

/-- **Arities compose**: the second part takes what the first one leaves. -/
theorem bind {g : α → StepM β} (hx : HasArity n m x) (hg : ∀ a, HasArity m k (g a)) :
    HasArity n k (x >>= g) where
  onto {f s} below hf := by
    change EStateM.bind x g _ = mapResult id _ (EStateM.bind x g _)
    rw [EStateM.bind, EStateM.bind, hx.onto below hf]
    cases hresult : x ⟨f, s⟩ with
    | error e a => rfl
    | ok a a₁ =>
      -- what `x` leaves is enough for what follows
      have hlength := hx.length hf hresult
      exact (hg a).onto below (by omega)
  length hf h := by
    obtain ⟨a, ⟨f₁, s₁⟩, hx₁, hg₁⟩ := bind_ok_iff.mp h
    have hlength := hx.length hf hx₁
    have hlength₁ := (hg a).length (by omega) hg₁
    omega

theorem ite {c : Prop} [Decidable c] (hx : HasArity n m x) (hy : HasArity n m y) :
    HasArity n m (if c then x else y) := by
  split
  · exact hx
  · exact hy

/-- A check that is made before the rest. -/
theorem check {c : Prop} [Decidable c] {e : Failure} {rest : Unit → StepM α}
    (h : HasArity n m (rest ())) :
    HasArity n m (if c then fail e >>= rest else rest ()) :=
  .ite ((throw (n := n) (m := n) _).bind fun _ => h) h

theorem liftExcept (x : Except Fault α) : HasArity n n (liftM x : StepM α) := by
  cases x with
  | ok a => exact pure a
  | error e => exact throw _

/-- A computation on the state does not see the stack. -/
theorem liftAction (x : Action α) : HasArity n n (liftM x : StepM α) where
  onto {f s} below _ := by
    rw [liftAction_apply, liftAction_apply]
    cases x s with
    | ok a s' => rfl
    | error e s' => rfl
  length _ hx := by
    obtain ⟨s', -, hf⟩ := liftAction_ok_iff.mp hx
    cases hf
    rfl

/-- Looking at the frame, for something that does not depend on what lies below. -/
theorem getFrame_bind {g : Frame → StepM α} (hg : ∀ f, HasArity n m (g f))
    (honto : ∀ (f : Frame) (below : Stack), n ≤ f.stack.length → g (f.onto below) = g f) :
    HasArity n m (getFrame >>= g) where
  onto {f s} below hf := by
    rw [Step.getFrame_bind, Step.getFrame_bind, honto f below hf]
    exact (hg f).onto below hf
  length hf hx := (hg _).length hf hx

/-- A change of the frame to which what lies below makes no difference. -/
theorem modifyFrame {g : Frame → Frame}
    (honto : ∀ (f : Frame) (below : Stack), n ≤ f.stack.length →
      g (f.onto below) = (g f).onto below)
    (hlength : ∀ f : Frame, n ≤ f.stack.length → (g f).stack.length + n = f.stack.length + m) :
    HasArity n m (modifyFrame g) where
  onto {f s} below hf := by
    change EStateM.Result.ok () (Activation.mk (g (f.onto below)) s) = _
    rw [honto f below hf]
    rfl
  length {f _ _ _ _} hf hx := by
    cases modifyFrame_ok_iff.mp hx
    exact hlength f hf

/-- A change of the frame that leaves its stack alone. -/
theorem modifyFrame_of_stack {g : Frame → Frame}
    (honto : ∀ f below, g (Frame.onto f below) = (g f).onto below)
    (hstack : ∀ f, (g f).stack = f.stack) : HasArity n n (Step.modifyFrame g) :=
  .modifyFrame (fun f below _ => honto f below) fun f _ => by rw [hstack]

/-- Replacing the stack by something found from its top words. -/
theorem setStack {g : Stack → Except Fault Stack}
    (honto : ∀ stack below : Stack, n ≤ stack.length →
      g (stack ++ below) = (g stack).map (· ++ below))
    (hlength : ∀ stack stack' : Stack, n ≤ stack.length → g stack = .ok stack' →
      stack'.length + n = stack.length + m) :
    HasArity n m (getFrame >>= fun f => liftM (g f.stack) >>= Step.setStack) where
  onto {f s} below hf := by
    -- what is found for the longer stack is what was found, put onto the rest
    rw [Step.getFrame_bind, Step.getFrame_bind,
      show (f.onto below).stack = f.stack ++ below from rfl, honto f.stack below hf]
    cases g f.stack with
    | ok stack => rfl
    | error e => rfl
  length {f _ _ _ _} hf hx := by
    rw [Step.getFrame_bind] at hx
    obtain ⟨stack, hstack, hx⟩ := liftExcept_bind_ok hx
    cases modifyFrame_ok_iff.mp hx
    exact hlength f.stack stack hf hstack

/-! ### The parts -/

theorem advance : HasArity n n advance := .modifyFrame_of_stack (fun _ _ => rfl) fun _ => rfl

theorem setMode (mode : Mode) : HasArity n n (setMode mode) :=
  .modifyFrame_of_stack (fun _ _ => rfl) fun _ => rfl

theorem useGas (gas : Int) : HasArity n n (useGas gas) := by
  rw [useGas_eq]
  exact .getFrame_bind
    (fun _ => .ite (.throw _) (.modifyFrame_of_stack (fun _ _ => rfl) fun _ => rfl))
      fun _ _ _ => rfl

/-- Taking a word off. -/
theorem pop : HasArity (n + 1) n pop where
  onto {f s} below hf := by
    -- there is a word to take, so the case of an empty stack does not arise
    obtain ⟨v, rest, hstack⟩ := List.exists_cons_of_length_pos (Nat.zero_lt_of_lt hf)
    rw [Step.pop, Step.getFrame_bind, Step.getFrame_bind, Frame.onto, hstack]
    rfl
  length {f _ _ _ _} hf hx := by
    obtain ⟨rest, hstack, ha⟩ := pop_ok hx
    cases ha
    change rest.length + (n + 1) = f.stack.length + n
    rw [hstack, List.length_cons]
    omega

theorem peek : HasArity (n + 1) (n + 1) peek :=
  .getFrame_bind (fun _ => .liftExcept _) fun f below hf => by
    obtain ⟨v, rest, hstack⟩ := List.exists_cons_of_length_pos (Nat.zero_lt_of_lt hf)
    rw [Frame.onto, hstack]
    rfl

/-- Replacing the topmost word. -/
theorem poke (v : Word) : HasArity (n + 1) (n + 1) (poke v) := by
  -- the word is replaced where it lies, on top
  refine setStack (g := (Stack.poke · v)) (fun stack below hstack => ?_)
    fun stack stack' hstack h => ?_
  · obtain ⟨top, rest, rfl⟩ := List.exists_cons_of_length_pos (Nat.zero_lt_of_lt hstack)
    rfl
  · obtain ⟨top, rest, rfl⟩ := List.exists_cons_of_length_pos (Nat.zero_lt_of_lt hstack)
    cases h
    rfl

theorem push (v : Word) : HasArity n (n + 1) (push v) :=
  .modifyFrame (fun _ _ _ => rfl) fun f _ => by
    dsimp only
    rw [List.length_cons]
    omega

theorem popBytes : HasArity (n + 1) n popBytes := by
  refine pop.bind fun v => ?_
  cases Bytes.ofWord? v with
  | none => exact throw _
  | some b => exact pure b

theorem popTopics (k : Nat) : HasArity (n + k) n (popTopics k) := by
  -- by induction on the number of topics
  induction k with
  | zero => exact pure []
  | succ k ih => exact (popBytes (n := n + k)).bind fun _ => ih.bind fun _ => pure _

/-- Copying a word that is among the top `n`. -/
theorem dup (i : Nat) (h : i < n) :
    HasArity n (n + 1) (Step.getFrame >>= fun f => liftM (f.stack.dup i) >>= Step.setStack) := by
  refine setStack (g := (Stack.dup · i)) (fun stack below hstack => ?_)
    fun stack stack' hstack hdup => ?_
  · exact Stack.dup_append (h.trans_le hstack)
  · rw [Stack.dup_of_lt (h.trans_le hstack)] at hdup
    cases hdup
    rw [List.length_cons]
    omega

/-- Swapping two words that are among the top `n`. -/
theorem swap (i : Nat) (h : i < n) :
    HasArity n n (Step.getFrame >>= fun f => liftM (f.stack.swap i) >>= Step.setStack) := by
  refine setStack (g := (Stack.swap · i)) (fun stack below hstack => ?_)
    fun stack stack' hstack hswap => ?_
  · exact Stack.swap_append (h.trans_le hstack)
  · rw [Stack.swap_of_lt (h.trans_le hstack)] at hswap
    cases hswap
    rw [List.length_set, List.length_set]

theorem readMemory (offset size : Int) : HasArity n n (readMemory offset size) :=
  .getFrame_bind (fun _ => pure _) fun _ _ _ => rfl

theorem modifyMemory (g : Memory → Except Fault Memory) : HasArity n n (modifyMemory g) := by
  rw [modifyMemory_eq]
  exact .getFrame_bind
    (fun _ => (liftExcept _).bind fun _ => .modifyFrame_of_stack (fun _ _ => rfl) fun _ => rfl)
    fun _ _ _ => rfl

theorem writeMemory (offset : Int) (data : ByteArray) : HasArity n n (writeMemory offset data) :=
  modifyMemory _

/-- A copy takes its three operands, and its source takes nothing. -/
theorem copyPadded {source : StepM ByteArray} (h : HasArity n n source) :
    HasArity (n + 3) n (copyPadded source) := by
  refine (pop (n := n + 2)).bind fun _ => (pop (n := n + 1)).bind fun _ => pop.bind fun _ =>
    .ite ?_ advance
  exact h.bind fun _ => (liftExcept _).bind fun _ => (writeMemory _ _).bind fun _ => advance

/-- So does a copy of the data of the last call. -/
theorem copyReturnData : HasArity (n + 3) n copyReturnData := by
  refine (pop (n := n + 2)).bind fun _ => (pop (n := n + 1)).bind fun _ => pop.bind fun _ =>
    .getFrame_bind (fun f => .check ?_) fun _ _ _ => rfl
  exact (writeMemory _ _).bind fun _ => advance

/-- A jump, whether or not it goes to a valid destination. -/
theorem jumpTo (dest : Word) : HasArity n n (jumpTo dest) := by
  refine .getFrame_bind (fun f => ?_) fun _ _ _ => rfl
  have hgo : HasArity n n (Step.modifyFrame ({ · with pc := dest })) :=
    .modifyFrame_of_stack (fun _ _ => rfl) fun _ => rfl
  exact .ite hgo ((throw (m := n) _).bind fun _ => hgo)

end HasArity

/-! ### Instructions -/

end Step

/-- Whether an instruction leaves its frame waiting for what it asked for. Its result is put on the
stack when the frame goes on. -/
def Opcode.asks : Opcode → Bool
  | .create _ | .call _ => true
  | _ => false

/-- The words that an instruction itself leaves on the stack. -/
def Opcode.leaves (op : Opcode) (operation : Operation) : Nat :=
  if op.asks then 0 else operation.alpha

namespace Step.HasArity

/-- A creation takes its operands, of which the salt is one if there is one. -/
theorem create (ctx : Context) (forwarded : Int) (kind : CreateKind) :
    HasArity (if kind = .create2 then 4 else 3) 0 (Step.run ctx forwarded (.create kind)) := by
  cases kind with
  | create =>
    exact (pop (n := 2)).bind fun _ => (pop (n := 1)).bind fun _ => (pop (n := 0)).bind fun _ =>
      (pure none).bind fun _ => setMode _
  | create2 =>
    refine (pop (n := 3)).bind fun _ => (pop (n := 2)).bind fun _ => (pop (n := 1)).bind fun _ => ?_
    -- the salt is taken off last
    have hsalt : HasArity 1 0 (some <$> Step.pop) := by
      rw [map_eq_pure_bind]
      exact pop.bind fun _ => .pure _
    exact hsalt.bind fun _ => setMode _

/-- A call takes its operands at once. -/
theorem call (ctx : Context) (forwarded : Int) (kind : CallKind) :
    HasArity (callOperands kind) 0 (Step.run ctx forwarded (.call kind)) := by
  refine .getFrame_bind (fun f => (liftExcept _).bind fun request => ?_) fun f below hf => ?_
  · -- the operands were looked at before they are discarded
    refine .modifyFrame (fun f below hf => ?_) fun f hf => ?_
    · simp only [Frame.onto, Stack.discard_append hf]
    · dsimp only
      rw [Stack.discard, if_pos hf, List.length_drop]
      omega
  · rw [callRequest_onto hf]

/-- **The table lists how many words an instruction takes and leaves.** -/
theorem run (ctx : Context) (forwarded : Int) {op : Opcode} {operation : Operation}
    (h : op.operation? = some operation) :
    HasArity operation.delta (op.leaves operation) (Step.run ctx forwarded op) := by
  -- one case for each instruction, put together as the instruction is
  cases op with
  | stop =>
    cases h
    exact setMode _
  | unary op =>
    cases h
    exact (peek (n := 0)).bind fun _ => (poke _).bind fun _ => advance
  | binary op =>
    have hrun : HasArity 2 1 (Step.run ctx forwarded (.binary op)) :=
      (pop (n := 1)).bind fun _ => (peek (n := 0)).bind fun _ => (liftExcept _).bind fun _ =>
        (poke _).bind fun _ => advance
    cases op with
    -- all operations on two words are listed alike
    | _ =>
      cases h
      exact hrun
  | ternary op =>
    cases h
    exact (pop (n := 2)).bind fun _ => (pop (n := 1)).bind fun _ => (peek (n := 0)).bind fun _ =>
      (poke _).bind fun _ => advance
  | keccak =>
    cases h
    exact (pop (n := 1)).bind fun _ => (peek (n := 0)).bind fun _ => (readMemory _ _).bind fun _ =>
      (poke _).bind fun _ => advance
  | environment item =>
    cases h
    refine .getFrame_bind (fun _ => (push _).bind fun _ => advance) fun f below _ => ?_
    -- no item of the environment is a word of the stack
    cases item with
    | _ => rfl
  | account query =>
    cases h
    exact (peek (n := 0)).bind fun _ => (liftAction _).bind fun _ => (poke _).bind fun _ => advance
  | selfBalance =>
    cases h
    exact .getFrame_bind (fun _ => (liftAction _).bind fun _ => (push _).bind fun _ => advance)
      fun _ _ _ => rfl
  | callDataLoad =>
    cases h
    exact .getFrame_bind (fun _ => (peek (n := 0)).bind fun _ => (poke _).bind fun _ => advance)
      fun _ _ _ => rfl
  | blockHash =>
    cases h
    exact (peek (n := 0)).bind fun _ => (poke _).bind fun _ => advance
  | copy source =>
    cases h
    cases source with
    | callData => exact copyPadded (.getFrame_bind (fun _ => .pure _) fun _ _ _ => rfl)
    | code => exact copyPadded (.getFrame_bind (fun _ => .pure _) fun _ _ _ => rfl)
    | returnData => exact copyReturnData
  | accountCodeCopy =>
    cases h
    exact (pop (n := 3)).bind fun _ => copyPadded (.liftAction _)
  | pop =>
    cases h
    have hpop : HasArity 1 0 (discard Step.pop) := by
      rw [discard_eq]
      exact pop.bind fun _ => .pure _
    exact hpop.bind fun _ => advance
  | memoryLoad =>
    cases h
    exact .getFrame_bind (fun _ => (peek (n := 0)).bind fun _ => (poke _).bind fun _ => advance)
      fun _ _ _ => rfl
  | memoryStore =>
    cases h
    exact (pop (n := 1)).bind fun _ => (popBytes (n := 0)).bind fun _ =>
      (modifyMemory _).bind fun _ => advance
  | memoryStoreByte =>
    cases h
    refine (pop (n := 1)).bind fun _ => (pop (n := 0)).bind fun _ =>
      .getFrame_bind (fun f => ?_) fun _ _ _ => rfl
    refine (liftExcept _).bind fun _ => HasArity.bind (m := 0) ?_ fun _ => advance
    exact modifyFrame_of_stack (fun _ _ => rfl) fun _ => rfl
  | storageLoad =>
    cases h
    exact .getFrame_bind (fun _ => (peek (n := 0)).bind fun _ => (liftAction _).bind fun _ =>
      (poke _).bind fun _ => advance) fun _ _ _ => rfl
  | storageStore =>
    cases h
    refine (pop (n := 1)).bind fun _ => (pop (n := 0)).bind fun _ =>
      .getFrame_bind (fun f => ?_) fun _ _ _ => rfl
    exact (liftAction _).bind fun _ => advance
  | jump =>
    cases h
    exact (pop (n := 0)).bind fun _ => jumpTo _
  | jumpIf =>
    cases h
    exact (pop (n := 1)).bind fun _ => (pop (n := 0)).bind fun _ => .ite (jumpTo _) advance
  | jumpDest =>
    cases h
    exact advance
  | push n =>
    cases h
    rw [Step.run]
    exact modifyFrame (fun _ _ _ => rfl) fun _ _ => rfl
  | dup n =>
    cases h
    have hdup := (dup (n := n.val + 1) n.val (Nat.lt_succ_self _)).bind fun _ => advance
    -- the table speaks of the whole instruction, the lemma of its first part
    simp only [bind_assoc] at hdup
    exact hdup
  | swap n =>
    cases h
    have hswap := (swap (n := n.val + 2) (n.val + 1) (Nat.lt_succ_self _)).bind fun _ => advance
    simp only [bind_assoc] at hswap
    exact hswap
  | log n =>
    cases h
    refine (pop (n := n.val + 1)).bind fun _ => (pop (n := n.val)).bind fun _ => ?_
    have htopics := popTopics (n := 0) n.val
    rw [Nat.zero_add] at htopics
    refine htopics.bind fun _ => (readMemory _ _).bind fun _ =>
      .getFrame_bind (fun _ => ?_) fun _ _ _ => rfl
    exact (liftAction _).bind fun _ => advance
  | create kind =>
    have hrun := create ctx forwarded kind
    cases kind with
    | _ =>
      cases h
      exact hrun
  | call kind =>
    have hrun := call ctx forwarded kind
    cases kind with
    | _ =>
      cases h
      exact hrun
  | «return» =>
    cases h
    refine (pop (n := 1)).bind fun _ => (pop (n := 0)).bind fun _ =>
      (readMemory _ _).bind fun _ => ?_
    exact modifyFrame_of_stack (fun _ _ => rfl) fun _ => rfl
  | revert =>
    cases h
    refine (pop (n := 1)).bind fun _ => (pop (n := 0)).bind fun _ =>
      (readMemory _ _).bind fun _ => ?_
    exact modifyFrame_of_stack (fun _ _ => rfl) fun _ => rfl
  | invalid => cases h
  | selfDestruct =>
    cases h
    refine (pop (n := 0)).bind fun _ => .getFrame_bind (fun _ => ?_) fun _ _ _ => rfl
    exact (liftAction _).bind fun _ => setMode _

/-! ### Phases -/

end Step.HasArity

/-- The phases of a step once the stack has passed its check. -/
def Step.checked (ctx : Context) (op : Opcode) (operation : Operation) : StepM Unit := do
  Step.checkReadOnly op operation
  Step.paying ctx op operation

namespace Step.HasArity

variable {op : Opcode} {operation : Operation}

/-- The check of what must not be written looks at no more than the operands. -/
theorem checkReadOnly (h : op.operation? = some operation) :
    HasArity operation.delta operation.delta (Step.checkReadOnly op operation) := by
  refine .getFrame_bind (fun f => .ite (.check ?_) (.pure ())) fun f below hf => ?_
  · exact .ite ((liftExcept _).bind fun _ => .ite (.throw _) (.pure ())) (.pure ())
  · -- only a call looks at the stack here, for the value that it would move
    by_cases hcall : op = .call .call
    · subst hcall
      cases h
      have hback : (f.onto below).stack.back 2 = f.stack.back 2 :=
        Stack.back_append (Nat.lt_of_lt_of_le (by decide) hf)
      simp only [hback]
      rfl
    · simp only [if_neg hcall]
      rfl

/-- Neither does finding the size of the memory. -/
theorem findMemorySize (h : op.operation? = some operation) :
    HasArity operation.delta operation.delta (Step.findMemorySize operation) := by
  refine .getFrame_bind (fun f => (liftExcept _).bind fun size? => ?_) fun f below hf => ?_
  · cases size? with
    | none => exact .throw _
    | some size => exact .modifyFrame_of_stack (fun _ _ => rfl) fun _ => rfl
  · have hsize := MemoryUse.size?_append ((Opcode.operands_le h).1.trans hf) below
    rw [show (f.onto below).stack = f.stack ++ below from rfl, hsize]

/-- Nor does finding and paying the dynamic cost. -/
theorem payDynamic (h : op.operation? = some operation) :
    HasArity operation.delta operation.delta (Step.payDynamic operation) := by
  refine .getFrame_bind (fun f => (liftAction _).bind fun charge? => ?_) fun f below hf => ?_
  · cases charge? with
    | none => exact .throw _
    | some charge => exact (useGas _).bind fun _ => .pure _
  · rw [Gas.dynamic_onto ((Opcode.operands_le h).2.trans hf)]
    rfl

theorem growMemory (n : Nat) : HasArity n n Step.growMemory := by
  refine .getFrame_bind (fun _ => .ite ?_ (.pure _)) fun _ _ _ => rfl
  exact (modifyMemory _).bind fun _ => .modifyFrame_of_stack (fun _ _ => rfl) fun _ => rfl

/-- **All that a step does once the stack has passed its check** has the arity
that the table lists. -/
theorem checked (ctx : Context) (h : op.operation? = some operation) :
    HasArity operation.delta (op.leaves operation) (Step.checked ctx op operation) := by
  exact (checkReadOnly h).bind fun _ => (useGas _).bind fun _ =>
    (findMemorySize h).bind fun _ => (payDynamic h).bind fun forwarded =>
    (growMemory _).bind fun _ => run ctx forwarded h

end Step.HasArity

end EvmCore
