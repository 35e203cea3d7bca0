import EvmCore.Proofs.Course
import EvmCore.Proofs.StackEffect
import Mathlib

/-!
# Declared and actual arity

The table of operations declares how many words an instruction takes from the stack and how
many it leaves there. `Step.HasArity` says the same of what is computed; here it is brought to
whole instructions, which for calls and creations last until the frame goes on
(`Machine.Completes`), and to the whole course of a frame. Since the check of the stack is made
with the declared numbers, a stack never holds more than `Stack.limit` words, and no step ever
looks for a word that is not there.
-/

namespace EvmCore

/-! ### What kind of instruction leaves a frame in which mode -/

/-- An instruction that is not done when its step is leaves one word, once it is. -/
theorem Opcode.alpha_of_asks {op : Opcode} {operation : Operation}
    (h : op.operation? = some operation) (hasks : op.asks = true) : operation.alpha = 1 := by
  cases op with
  | create kind =>
    cases kind with
    | _ =>
      cases h
      rfl
  | call kind =>
    cases kind with
    | _ =>
      cases h
      rfl
  | _ => cases hasks

/-- An instruction that ends its frame leaves no word. -/
theorem Opcode.alpha_of_ends {op : Opcode} {operation : Operation}
    (h : op.operation? = some operation) (hends : op.ends = true) :
    op.asks = false ∧ operation.alpha = 0 := by
  cases op with
  | stop | «return» | revert | selfDestruct =>
    cases h
    exact ⟨rfl, rfl⟩
  | _ => cases hends

section Modes

variable {ctx : Context} {forwarded : Int} {op : Opcode} {operation : Operation} {f f' : Frame}
  {s s' : State}

/-- What a frame is about after an instruction. -/
theorem Executes.mode_cases (h : Executes ctx forwarded op f s f' s') (hmode : f.mode = .running) :
    (op.asks = true ∧ f'.Waits) ∨
    (op.ends = true ∧ (f'.mode = .exited .halted ∨ f'.mode = .exited .reverted)) ∨
    (op.asks = false ∧ f'.mode = .running) := by
  cases h with
  | create => exact .inl ⟨rfl, .inr ⟨_, rfl⟩⟩
  | call => exact .inl ⟨rfl, .inl ⟨_, rfl⟩⟩
  | stop | «return» | selfDestruct => exact .inr (.inl ⟨rfl, .inl rfl⟩)
  | revert => exact .inr (.inl ⟨rfl, .inr rfl⟩)
  | _ => exact .inr (.inr ⟨rfl, hmode⟩)

/-- A step that fails puts nothing on the stack. -/
theorem Steps.suffix_of_failure (h : Steps ctx f s f' s') (hmode : f.mode = .running)
    (hfailure : f'.mode.isFailure = true) : f'.stack <:+ f.stack := by
  cases h with
  -- what failed before the instruction was prepared has not looked at the stack
  | unprepared e hunprepared =>
    obtain ⟨gas, memoryDesired, rfl⟩ := hunprepared.frame
    exact List.suffix_rfl
  | failed e hprepared huntouched =>
    obtain ⟨stack, hsuffix, hframe⟩ := huntouched.frame
    dsimp only at hframe hsuffix
    subst hframe
    exact hprepared.stack ▸ hsuffix
  | executed hprepared hexecutes =>
    -- an instruction that was executed waits, ends the frame without failing, or lets it run on
    obtain ⟨-, ⟨r, hr⟩ | ⟨r, hr⟩⟩ | ⟨-, hr | hr⟩ | ⟨-, hr⟩ :=
      hexecutes.mode_cases (hprepared.mode.trans hmode)
    all_goals
      rw [hr] at hfailure
      cases hfailure

/-- What a frame is about after a step that did not fail. -/
theorem Steps.mode_cases (h : Steps ctx f s f' s') (hmode : f.mode = .running)
    (hat : f.IsAt op operation) (hok : f'.mode.isFailure = false) :
    (op.asks = true ∧ f'.Waits) ∨
    (op.ends = true ∧ (f'.mode = .exited .halted ∨ f'.mode = .exited .reverted)) ∨
    (op.asks = false ∧ f'.mode = .running) := by
  cases h with
  | unprepared e _ => cases hok
  | failed e _ _ => cases hok
  | executed hprepared hexecutes =>
    obtain ⟨rfl, rfl⟩ := hat.unique hprepared.isAt
    exact hexecutes.mode_cases (hprepared.mode.trans hmode)

end Modes

/-! ### Steps -/

namespace Step

variable {ctx : Context} {op : Opcode} {operation : Operation} {f f' : Frame}
  {s s' : State} {u : Unit}

/-- The check of the stack lets it pass or fails, and leaves all as it was. -/
theorem checkStack_cases (operation : Operation) (f : Frame) (s : State) :
    (checkStack operation ⟨f, s⟩ = .ok () ⟨f, s⟩ ∧ operation.minStack ≤ f.stack.length ∧
      f.stack.length ≤ operation.maxStack) ∨
    ∃ e, checkStack operation ⟨f, s⟩ = .error (.failure e) ⟨f, s⟩ := by
  rw [checkStack, getFrame_bind]
  by_cases hmin : (f.stack.length : Int) < operation.minStack
  · -- too few words
    rw [if_pos hmin]
    exact .inr ⟨_, rfl⟩
  · rw [if_neg hmin]
    by_cases hmax : operation.maxStack < (f.stack.length : Int)
    · -- too many, counting those that the instruction leaves
      rw [if_pos hmax]
      exact .inr ⟨_, rfl⟩
    · rw [if_neg hmax]
      exact .inl ⟨rfl, not_lt.mp hmin, not_lt.mp hmax⟩

/-- A step that did not fail: the stack passed its check, and then came what
the instruction is about. -/
theorem checked_of_step (hat : f.IsAt op operation) (h : step ctx ⟨f, s⟩ = .ok u ⟨f', s'⟩)
    (hok : f'.mode.isFailure = false) :
    operation.minStack ≤ f.stack.length ∧ f.stack.length ≤ operation.maxStack ∧
      ∃ s₀, checked ctx op operation ⟨f, s₀⟩ = .ok () ⟨f', s'⟩ := by
  -- had a phase failed, the mode would show it
  have hphases : phases ctx ⟨f, s⟩ = .ok () ⟨f', s'⟩ := by
    rw [step] at h
    split at h
    · next hphases =>
      cases h
      exact hphases
    · cases h
      cases hok
    · cases h
  rw [phases_of_isAt hat] at hphases
  obtain ⟨_, a₁, hrecord, hphases⟩ := bind_ok_iff.mp hphases
  obtain ⟨s₀, -, rfl⟩ := recordStep_ok hrecord
  obtain ⟨_, a₂, hcheck, hphases⟩ := bind_ok_iff.mp hphases
  obtain ⟨hmin, hmax, rfl⟩ := checkStack_ok hcheck
  exact ⟨hmin, hmax, s₀, hphases⟩

/-- **What a step that did not fail leaves on the stack.** -/
theorem stack_of_step (hat : f.IsAt op operation) (h : step ctx ⟨f, s⟩ = .ok u ⟨f', s'⟩)
    (hok : f'.mode.isFailure = false) :
    operation.minStack ≤ f.stack.length ∧ f.stack.length ≤ operation.maxStack ∧
      ∃ results, f'.stack = results ++ f.stack.drop operation.delta ∧
        results.length = op.leaves operation := by
  obtain ⟨hmin, hmax, s₀, hchecked⟩ := checked_of_step hat h hok
  exact ⟨hmin, hmax, (HasArity.checked ctx hat.operation?).stack_eq (Int.ofNat_le.mp hmin) hchecked⟩

end Step

/-! ### The size of the stack -/

/-- A stack that is not too large. A frame that waits has room left for what it waits for. -/
structure Frame.FitsStack (f : Frame) : Prop where
  limit : f.stack.length ≤ Stack.limit
  room : f.Active → f.mode ≠ .running → f.stack.length < Stack.limit

/-- A frame that goes on has room for the word that it is given. -/
theorem Frame.FitsStack.resume {f f' : Frame} {o : Outcome} {u : Unit} (hf : f.FitsStack)
    (h : Frame.resume o f = .ok u f') : f'.FitsStack := by
  -- only a frame that waits goes on, and one that waits has room for a word
  have hroom : f.stack.length < Stack.limit := by
    refine hf.room (fun exit hexit => ?_) fun hrunning => ?_
    · rw [Frame.resume, get_bind, hexit] at h
      exact throw_ne_ok h
    · rw [Frame.resume, get_bind, hrunning] at h
      exact throw_ne_ok h
  obtain ⟨w, hstack, -⟩ := (Frame.resumes_of_resume h).stack
  refine ⟨?_, fun _ hmode => absurd (Frame.resumes_of_resume h).mode hmode⟩
  rw [hstack, List.length_cons]
  exact hroom

/-- Beginning a request leaves the stack alone. -/
theorem Frame.FitsStack.begin {ctx : Context} {f f' : Frame} {s s' : State} {start : Start}
    (hf : f.FitsStack) (h : f.begin ctx ⟨f, s⟩ = .ok start ⟨f', s'⟩) : f'.FitsStack := by
  cases Frame.begins_of_begin h with
  | call => exact ⟨hf.limit, hf.room⟩
  | create => exact ⟨hf.limit, hf.room⟩

/-- A step keeps the stack within its limit, since the check is made with what
the instruction leaves. -/
theorem Frame.FitsStack.step {ctx : Context} {f f' : Frame} {s s' : State} {u : Unit}
    (hf : f.FitsStack) (hmode : f.mode = .running) (h : EvmCore.step ctx ⟨f, s⟩ = .ok u ⟨f', s'⟩) :
    f'.FitsStack := by
  have hsteps := steps_of_step h
  cases hok : f'.mode.isFailure with
  | true =>
    -- what is left of the stack is no longer than the stack was
    refine ⟨(hsteps.suffix_of_failure hmode hok).length_le.trans hf.limit, fun hactive _ => ?_⟩
    cases hmode' : f'.mode with
    | exited exit => exact absurd hmode' (hactive exit)
    | _ =>
      rw [hmode'] at hok
      cases hok
  | false =>
    obtain ⟨op, operation, hat⟩ : ∃ op operation, f.IsAt op operation := by
      cases hsteps with
      | unprepared e _ => cases hok
      | failed e _ _ => cases hok
      | executed hprepared _ => exact ⟨_, _, hprepared.isAt⟩
    obtain ⟨hmin, hmax, results, hstack, hresults⟩ := Step.stack_of_step hat h hok
    rw [Operation.minStack, Stack.fewestBefore] at hmin
    rw [Operation.maxStack, Stack.mostBefore] at hmax
    have hlength : f'.stack.length = op.leaves operation + (f.stack.length - operation.delta) := by
      rw [hstack, List.length_append, List.length_drop, hresults]
    rw [Opcode.leaves] at hlength
    obtain ⟨hasks, -⟩ | ⟨hends, hexit⟩ | ⟨hasks, hrunning⟩ := hsteps.mode_cases hmode hat hok
    · -- the check counted the word that comes later, which is the room that is left
      have halpha := Opcode.alpha_of_asks hat.operation? hasks
      rw [if_pos hasks] at hlength
      constructor
      · omega
      · intro _ _
        omega
    · -- an instruction that ends its frame leaves no words
      obtain ⟨hasks, halpha⟩ := Opcode.alpha_of_ends hat.operation? hends
      rw [hasks, if_neg nofun] at hlength
      refine ⟨by omega, fun hactive _ => ?_⟩
      obtain hexit | hexit := hexit
      · exact absurd hexit (hactive _)
      · exact absurd hexit (hactive _)
    · rw [hasks, if_neg nofun] at hlength
      exact ⟨by omega, fun _ hnot => absurd hrunning hnot⟩

/-- **The size of the stack**, in one iteration: whatever it is to the frame at `n`. -/
theorem Machine.Turn.fitsStack {ctx : Context} {n : Nat} {m m' : Machine} (h : Turn ctx n m m')
    (hm : (m.frameAt n).FitsStack) : (m'.frameAt n).FitsStack := by
  cases h with
  | rest _ _ hframe => exact hframe ▸ hm
  | step _ _ hmode hstep => exact hm.step hmode hstep
  | push _ _ hbegin => exact hm.begin hbegin
  | settle _ _ hbegin hresume => exact (hm.begin hbegin).resume hresume
  | pop _ _ _ _ hresume => exact hm.resume hresume

/-! ### Whole instructions -/

/-- The instruction that the top frame is at is completed: by one step, or, if the frame has to wait
then, when it goes on. -/
inductive Machine.Completes (ctx : Context) (m : Machine) : Machine → Prop
  | atOnce {m' : Machine} : iterate ctx m = .ok none m' → ¬m'.top.Waits → Completes ctx m m'
  | later {m₁ m' : Machine} {last : Option Frame} : iterate ctx m = .ok none m₁ → m₁.top.Waits →
      Resolves ctx m₁ last m' → Completes ctx m m'

/-- Waiting does nothing to the stack but put a word on top. -/
theorem Machine.Resolves.stack {ctx : Context} {m m' : Machine} {last : Option Frame}
    (h : Resolves ctx m last m') (hm : m.top.Waits) :
    m'.waiting = m.waiting ∧ m'.top.mode = .running ∧
      ∃ w, m'.top.stack = w :: m.top.stack := by
  -- a call or a creation takes what it needs from the request, not from the stack
  have hbegin {start : Start} {f : Frame} {s : State}
      (h : m.top.begin ctx ⟨m.top, m.state⟩ = .ok start ⟨f, s⟩) : f.stack = m.top.stack := by
    cases Frame.begins_of_begin h with
    | call => rfl
    | create => rfl
  obtain ⟨hwaiting, ⟨-, f, o, hf, hresume⟩ | ⟨child, f, s, m₂, o, a, -, hf, -, -, -, hresume, -⟩⟩ :=
    h.elim hm
  · obtain ⟨w, hstack, -⟩ := (Frame.resumes_of_resume hresume).stack
    exact ⟨hwaiting, (Frame.resumes_of_resume hresume).mode, w, hbegin hf ▸ hstack⟩
  · obtain ⟨w, hstack, -⟩ := (Frame.resumes_of_resume hresume).stack
    exact ⟨hwaiting, (Frame.resumes_of_resume hresume).mode, w, hbegin hf ▸ hstack⟩

/-- **A completed instruction** has taken the words that the table says it takes, and left those
that the table says it leaves. -/
theorem Machine.Completes.stack {ctx : Context} {m m' : Machine} {op : Opcode}
    {operation : Operation} (h : Completes ctx m m') (hmode : m.top.mode = .running)
    (hat : m.top.IsAt op operation) (hok : m'.top.mode.isFailure = false) :
    operation.minStack ≤ m.top.stack.length ∧ m.top.stack.length ≤ operation.maxStack ∧
      m'.waiting = m.waiting ∧
      ∃ results, m'.top.stack = results ++ m.top.stack.drop operation.delta ∧
        results.length = operation.alpha ∧ (m'.top.mode ≠ .running → results = []) := by
  cases h with
  | atOnce hiterate hwaits =>
    obtain ⟨hwaiting, hstep⟩ := step_of_iterate hiterate hmode
    obtain ⟨hmin, hmax, results, hstack, hresults⟩ := Step.stack_of_step hat hstep hok
    refine ⟨hmin, hmax, hwaiting, results, hstack, ?_⟩
    rw [Opcode.leaves] at hresults
    obtain ⟨-, hwaits'⟩ | ⟨hends, -⟩ | ⟨hasks, hrunning⟩ :=
      (steps_of_step hstep).mode_cases hmode hat hok
    · exact absurd hwaits' hwaits
    · obtain ⟨hasks, halpha⟩ := Opcode.alpha_of_ends hat.operation? hends
      rw [hasks, if_neg nofun] at hresults
      exact ⟨hresults, fun _ => List.length_eq_zero_iff.mp (hresults.trans halpha)⟩
    · rw [hasks, if_neg nofun] at hresults
      exact ⟨hresults, fun hnot => absurd hrunning hnot⟩
  | @later m₁ _ last hiterate hwaits hresolves =>
    obtain ⟨hwaiting₁, hstep⟩ := step_of_iterate hiterate hmode
    obtain ⟨hwaiting, hrunning, w, hw⟩ := hresolves.stack hwaits
    have hok₁ : m₁.top.mode.isFailure = false := by
      obtain ⟨r, hr⟩ | ⟨r, hr⟩ := hwaits
      all_goals
        rw [hr]
        rfl
    obtain ⟨hmin, hmax, results, hstack, hresults⟩ := Step.stack_of_step hat hstep hok₁
    -- no other instruction leaves its frame waiting
    have hasks : op.asks = true := by
      obtain ⟨hasks, -⟩ | ⟨-, hexit⟩ | ⟨-, hrunning⟩ :=
        (steps_of_step hstep).mode_cases hmode hat hok₁
      · exact hasks
      · obtain hexit | hexit := hexit
        · exact absurd hexit (hwaits.active _)
        · exact absurd hexit (hwaits.active _)
      · exact absurd hrunning hwaits.ne_running
    rw [Opcode.leaves, if_pos hasks, List.length_eq_zero_iff] at hresults
    subst hresults
    refine ⟨hmin, hmax, hwaiting.trans hwaiting₁, [w], ?_, ?_, fun hnot => absurd hrunning hnot⟩
    · rw [hw, hstack]
      rfl
    · rw [Opcode.alpha_of_asks hat.operation? hasks]
      rfl

/-- **Declared arity is actual arity.** An instruction that is completed without failing has taken
from the stack the words that the table says it takes, and has left on top of the others, which are
untouched, those that the table says it leaves; one that ends its frame leaves none. So the stack of
a frame that began with an empty one never holds more than `Stack.limit` words. And no step looks
for words that are not there: unless the check of the stack fails, which changes nothing, there are
as many words as the instruction takes, and the rest of the step, whatever becomes of it, is what it
is with these words alone, put onto the others. -/
theorem declared_arity_is_actual_arity (ctx : Context) :
    (∀ (m m' : Machine) (op : Opcode) (operation : Operation), m.top.mode = .running →
      m.top.IsAt op operation → m.Completes ctx m' → m'.top.mode.isFailure = false →
      operation.minStack ≤ m.top.stack.length ∧ m.top.stack.length ≤ operation.maxStack ∧
      m'.waiting = m.waiting ∧
      ∃ results, m'.top.stack = results ++ m.top.stack.drop operation.delta ∧
        results.length = operation.alpha ∧ (m'.top.mode ≠ .running → results = [])) ∧
    (∀ m₀ m : Machine, m₀.top.stack = [] → Machine.RunsAbove ctx m₀.waiting.length m₀ m →
      (m.frameAt m₀.waiting.length).stack.length ≤ 1024) ∧
    (∀ (f : Frame) (s : State) (op : Opcode) (operation : Operation), f.IsAt op operation →
      Step.phases ctx ⟨f, s⟩ = (do
        Step.recordStep op
        Step.checkStack operation
        Step.checked ctx op operation : StepM Unit) ⟨f, s⟩ ∧
      ((Step.checkStack operation ⟨f, s⟩ = .ok () ⟨f, s⟩ ∧ operation.delta ≤ f.stack.length ∧
          Step.checked ctx op operation ⟨f, s⟩ =
            mapResult id (·.onto (f.stack.drop operation.delta))
              (Step.checked ctx op operation
                ⟨{ f with stack := f.stack.take operation.delta }, s⟩)) ∨
        ∃ e, Step.checkStack operation ⟨f, s⟩ = .error (.failure e) ⟨f, s⟩)) := by
  refine ⟨fun m m' op operation hmode hat h hok => h.stack hmode hat hok,
    fun m₀ m hempty hruns => ?_, fun f s op operation hat => ⟨Step.phases_of_isAt hat, ?_⟩⟩
  · -- a frame that begins has an empty stack, and every iteration keeps it within the limit
    have hfresh : (m₀.frameAt m₀.waiting.length).FitsStack := by
      rw [Machine.frameAt_length rfl]
      refine ⟨?_, fun _ _ => ?_⟩
      · rw [hempty]
        exact Nat.zero_le _
      · rw [hempty]
        exact Nat.succ_pos _
    exact (hruns.course (I := fun m => (m.frameAt m₀.waiting.length).FitsStack) le_rfl
      Machine.Turn.fitsStack hfresh).limit
  · refine (Step.checkStack_cases operation f s).imp_left fun ⟨hcheck, hmin, _⟩ => ?_
    have hdelta : operation.delta ≤ f.stack.length := Int.ofNat_le.mp hmin
    exact ⟨hcheck, hdelta, (Step.HasArity.checked ctx hat.operation?).eq_of_take hdelta⟩

/-- A call of an account without code takes seven of eight words and leaves one. -/
theorem call_leaves_one_word :
    let m : Machine :=
      { top :=
          { message := { self := 1, caller := 2, codeAddress := 1, code := .ofBytes ⟨#[0xf1]⟩ }
            gas := 5000
            stack := [0, 3, 0, 0, 0, 0, 0, 9] }
        state := .ofSource {} }
    ∃ m' w, m.Completes {} m' ∧ m'.top.mode = .running ∧ m'.top.stack = [w, 9] := by
  intro m
  let request : CallRequest :=
    { kind := .call, caller := 1, address := 3, codeAddress := 3, value := 0, gas := 0
      readOnly := false, transfersValue := true
      inputOffset := 0, inputSize := 0, returnOffset := 0, returnSize := 0 }
  have hcompletes : endsWith (fun o m₁ => o.isNone && m₁.waiting.isEmpty &&
      decide (m₁.top.mode = .awaitingCall (some request)) && endsWith (fun o m' => o.isNone &&
        m'.waiting.isEmpty && decide (m'.top.mode = .running)) (m₁.iterate {})) (m.iterate {}) =
          true := by
    decide +kernel
  obtain ⟨o?, m₁, hiterate, hcompletes⟩ := endsWith_iff.mp hcompletes
  simp only [Bool.and_eq_true, Option.isNone_iff_eq_none, List.isEmpty_iff,
    decide_eq_true_eq] at hcompletes
  obtain ⟨⟨⟨rfl, hwaiting₁⟩, hwaits⟩, hcompletes⟩ := hcompletes
  obtain ⟨o?, m', hiterate', hcompletes⟩ := endsWith_iff.mp hcompletes
  simp only [Bool.and_eq_true, Option.isNone_iff_eq_none, List.isEmpty_iff,
    decide_eq_true_eq] at hcompletes
  obtain ⟨⟨rfl, hwaiting'⟩, hmode⟩ := hcompletes
  have hm : m.Completes {} m' :=
    .later hiterate (.inl ⟨request, hwaits⟩) (.atOnce hiterate' (by rw [hwaiting₁, hwaiting']))
  have hat : m.top.IsAt (.call .call) ⟨Gas.warmAccess, 7, 1, .callRegions 3, .call .call, false⟩ :=
    ⟨0xf1, by decide +kernel, by decide +kernel⟩
  obtain ⟨-, -, -, results, hstack, hlength, -⟩ :=
    (declared_arity_is_actual_arity {}).1 m m' _ _ rfl hat hm
    (by rw [hmode]; rfl)
  obtain ⟨w, rfl⟩ := List.length_eq_one_iff.mp hlength
  exact ⟨m', w, hm, hmode, hstack⟩

end EvmCore
