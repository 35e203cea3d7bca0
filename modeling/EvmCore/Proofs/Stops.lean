import EvmCore.Proofs.Recursion
import EvmCore.Proofs.Refund
import EvmCore.Proofs.Upholds
import Mathlib

/-!
# What stops a step and what ends an execution

A computation stops short with a failure of its frame or with a fault. Wherever it does, it has left
the source alone: only the write-back at the end of a transaction touches it. And two kinds of stop
never occur. A failure that refuses a call or a creation before anything was done
(`Failure.IsRefusal`) is told to the caller and is never the end of a frame that runs
(`step_not_isRefusal`). And while the refund counter pays for all the slots that are cleared, it is
never asked for more than it holds (`step_sparesRefund`): the one fault that says so can come only
from a contract that is built into the machine and reports it by itself (`Machine.run_error`).

It is enough that the parts which a step is put together from are of this kind
(`Step.Sound.closed`). One pass through what the machine does between two steps
shows the rest (`Admitted`).
-/

namespace EvmCore

/-! ### Faults that leave the refund counter out of it -/

/-- A word that is lacking has nothing to do with the refund counter. -/
theorem Stack.Lacks.sparesRefund {stack : Stack} {n : Nat} {e : Fault} (h : stack.Lacks n e) :
    e.SparesRefund := by
  obtain ⟨i, -, hback⟩ := h
  exact stack.back_spares i hback

/-- An address that is found by a nonce lacks at most the nonce. -/
theorem Creation.addressAt_spares (creator : Address) (nonce : Int) :
    Spares (addressAt creator nonce) := by
  rw [addressAt]
  split
  · exact .error trivial
  · exact .ok _

theorem Creation.saltedAddress_spares (creator : Address) (salt : Word) (initCode : ByteArray) :
    Spares (saltedAddress creator salt initCode) := by
  rw [saltedAddress]
  cases Bytes.ofWord? salt with
  | none => exact .error trivial
  | some salt => exact .ok _

/-- A creation that halted lacks at most its address. -/
theorem Outcome.createdWord_spares (o : Outcome) : Spares o.createdWord := by
  obtain ⟨exit, gasLeft, output, created⟩ := o
  -- only one that halted has an address to tell
  cases exit with
  | halted =>
    cases created with
    | some a => exact Spares.ok a.toWord
    | none => exact Spares.error trivial
  | reverted | failed => exact Spares.ok 0

/-! ### Steps -/

/-- What may stop a step: a failure that is no refusal, or a fault that has nothing to
do with the refund counter. -/
def Stop.Expected : Stop → Prop
  | .failure e => ¬e.IsRefusal
  | .fault e => e.SparesRefund

/-- The refund counter pays for all the slots that are cleared. -/
def State.Covered (s : State) : Prop := s.view.RefundCovered

/-- A frame that runs has not failed. -/
theorem Frame.unfailed_of_running {f : Frame} (h : f.mode = .running) : f.Unfailed := by
  intro e
  rw [h]
  nofun

/-- The source that an activation reads from. -/
def Activation.source (a : Activation) : Source := a.state.source

namespace Step

/-- A part of a step that leaves the source alone, keeps the refund counter covered, does not let
the frame fail by itself and stops only in ways that are expected. -/
abbrev Sound {α : Type} (x : StepM α) : Prop :=
  Upholds Activation.source (fun a => a.frame.Unfailed ∧ a.state.Covered) Stop.Expected x

namespace Sound

variable {α : Type}

/-- A computation on the state, as a part of a step. -/
theorem liftAction {x : Action α} (h : Upholds State.source State.Covered Fault.SparesRefund x) :
    Sound (liftM x : StepM α) := by
  rintro ⟨f, s⟩
  rw [Step.liftAction_apply]
  cases hx : x s with
  | ok r s' => exact ⟨h.fixes.ok hx, fun hs => ⟨hs.1, h.ok hs.2 hx⟩⟩
  | error e s' => exact ⟨h.fixes.error hx, fun hs => h.error hs.2 hx⟩

theorem liftRead {x : Action α} {f : View → α} (h : Mirrors x (View.reads f)) :
    Sound (liftM x : StepM α) :=
  liftAction (h.reads_upholds fun _ => trivial)

theorem liftValue {x : Except Fault α} (h : Spares x) : Sound (liftM x : StepM α) := by
  cases x with
  | ok a => exact .pure a
  | error e => exact .throw (h rfl)

/-- **The refund counter pays for every write to storage**: none is refused. -/
theorem storeSlot (a : Address) (key value : Word) :
    Sound (liftM (Step.storeSlot a key value) : StepM Unit) := by
  -- on the view nothing is left to refuse: a counter that is covered pays for the write
  refine liftAction ((storeSlot_mirrors a key value).upholds (fun _ => trivial) fun v => ?_)
  cases hstore : View.storeSlot a key value v with
  | ok u v' =>
    refine ⟨rfl, fun hv => ?_⟩
    rw [View.storeSlot_eq hv] at hstore
    cases hstore
    exact hv.stored a key value
  | error e v' =>
    refine ⟨rfl, fun hv => ?_⟩
    rw [View.storeSlot_eq hv] at hstore
    cases hstore

/-- Destroying a contract clears no slot. -/
theorem selfDestruct (self beneficiary : Address) :
    Sound (liftM (Step.selfDestruct self beneficiary) : StepM Unit) := by
  refine liftAction ((selfDestruct_mirrors self beneficiary).upholds (fun _ => trivial) ?_)
  -- neither a new balance nor a mark clears a slot, so the counter has no more
  -- to pay for than before
  have hset (a : Address) (x : Int) :
      Upholds (fun _ => ()) View.RefundCovered Fault.SparesRefund (View.setBalance a x) :=
    View.setBalance_upholds trivial fun v hv =>
      (View.ClearsNone.update v fun _ => rfl : View.ClearsNone v
        (v.update a ({ · with balance := x }))).covered hv
  have hmark (f : View → View) (h : ∀ v, View.ClearsNone v (f v)) :
      Upholds (fun _ => ()) View.RefundCovered Fault.SparesRefund (View.writes f) :=
    View.writes_upholds fun v hv => (h v).covered hv
  refine Upholds.get.bind fun _ => (hset _ _).bind fun _ => Upholds.bind ?_ fun _ =>
    (hset _ _).bind fun _ => ?_
  · exact hmark _ fun _ => .of_account_eq rfl rfl rfl rfl
  · exact hmark _ fun _ => .of_account_eq rfl rfl rfl rfl

theorem addLog (log : Log) : Sound (liftM (Substate.addLog log) : StepM Unit) := by
  refine liftAction ((Substate.addLog_mirrors log).upholds (fun _ => trivial)
    (View.writes_upholds fun v hv => ?_))
  exact View.RefundCovered.respected.addLog v log hv

/-- **Whatever an instruction asks of the state** is sound. -/
theorem asks {x : Action α} (h : Asks x) : Sound (liftM x : StepM α) := by
  -- one case for each question or change
  cases h with
  | query a query => exact liftRead (queryAccount_mirrors a query)
  | balance a => exact liftRead (World.balance_mirrors a)
  | code a => exact liftRead (World.code_mirrors a)
  | storage a key => exact liftRead (World.storage_mirrors a key)
  | storeSlot a key value => exact storeSlot a key value
  | addLog log => exact addLog log
  | selfDestruct self beneficiary => exact selfDestruct self beneficiary
  | dynamic cost frame size =>
    exact liftAction ((Gas.dynamic_looks cost frame size).upholds
      (fun _ => trivial) Stack.Lacks.sparesRefund)

/-- **What a step is put together from** leaves the source alone and stops only
in ways that are expected. -/
theorem closed : Closed fun _ x => Sound x where
  pure := .pure
  bind := .bind
  getFrame := Upholds.get.bind fun _ => .pure _
  modifyFrame hg := .modify (fun _ => rfl) fun a ha => ⟨hg a.frame ha.1, ha.2⟩
  value := liftValue
  action := asks

/-- Recording a step touches neither the source nor the counter. -/
theorem recordStep (op : Opcode) : Sound (Step.recordStep op) := by
  refine .modify (fun a => ?_) fun a h => ?_
  · dsimp only
    split
    · rfl
    · rfl
  · dsimp only
    split
    · exact h
    · exact h

theorem phases (ctx : Context) : Sound (Step.phases ctx) :=
  closed.phases (fun _ he => .throw he) recordStep ctx

end Sound

end Step

/-- **A step leaves the source alone**, whether or not it is cut short. -/
theorem step_fixes (ctx : Context) : Fixes Activation.source (step ctx) := by
  intro a
  have hphases := (Step.Sound.phases ctx).fixes a
  rw [step]
  cases hx : Step.phases ctx a with
  | ok u a' =>
    rw [hx] at hphases
    exact hphases
  | error stop a' =>
    rw [hx] at hphases
    -- a failure of the frame is a value of the step
    cases stop with
    | failure e => exact hphases
    | fault e => exact hphases

/-- **A step never asks the refund counter for more than it holds.** -/
theorem step_sparesRefund {ctx : Context} {f : Frame} {s : State} {e : Fault} {a : Activation}
    (hmode : f.mode = .running) (hs : s.Covered) (h : step ctx ⟨f, s⟩ = .error e a) :
    e.SparesRefund := by
  rw [step] at h
  split at h
  · cases h
  · cases h
  · next hphases =>
    cases h
    exact (Step.Sound.phases ctx).error ⟨Frame.unfailed_of_running hmode, hs⟩ hphases

/-- **A frame that runs never ends with a refusal.** -/
theorem step_not_isRefusal {ctx : Context} {f : Frame} {s : State} {e : Failure} {u : Unit}
    {a : Activation} (hmode : f.mode = .running) (hs : s.Covered) (h : step ctx ⟨f, s⟩ = .ok u a)
    (hfailed : a.frame.mode = .exited (.failed e)) : ¬e.IsRefusal := by
  have hintact : f.Unfailed ∧ s.Covered := ⟨Frame.unfailed_of_running hmode, hs⟩
  rw [step] at h
  split at h
  · next hphases =>
    -- without a failure of the step the frame has not failed
    cases h
    exact absurd hfailed (((Step.Sound.phases ctx).ok hintact hphases).1 e)
  · next hphases =>
    cases h
    cases hfailed
    exact (Step.Sound.phases ctx).error hintact hphases
  · cases h

/-! ### The machine -/

/-- A contract that is built into the machine ends a call to it with the fault `e`. -/
def Context.Reports (ctx : Context) (e : Fault) : Prop :=
  ∃ (a : Address) (precompile : Precompile) (input : ByteArray) (gas : Int),
    ctx.precompiles[a]? = some precompile ∧ precompile input gas = .error e

/-- A fault that has nothing to do with the refund counter, or is not of the
machine's own making. -/
def Context.Admits (ctx : Context) (e : Fault) : Prop := e.SparesRefund ∨ ctx.Reports e

/-- Whatever state it is started from, `x` leaves `g` of it alone and ends only
with faults that are admitted. -/
abbrev Admitted {σ γ α : Type} (ctx : Context) (g : σ → γ) (x : EStateM Fault σ α) : Prop :=
  Upholds g (fun _ => True) ctx.Admits x

/-- The source that a machine reads from. -/
def Machine.source (m : Machine) : Source := m.state.source

namespace Admitted

variable {σ γ α β : Type} {ctx : Context} {g : σ → γ}

theorem throw {e : Fault} (h : e.SparesRefund) : Admitted ctx g (throw e : EStateM Fault σ α) :=
  Upholds.throw (.inl h)

theorem modify {f : σ → σ} (h : ∀ s, g (f s) = g s) :
    Admitted ctx g (modify f : EStateM Fault σ PUnit) :=
  Upholds.modify h fun _ _ => trivial

theorem liftExcept {x : Except Fault α} (h : Spares x) :
    Admitted ctx State.source (liftM x : Action α) :=
  Upholds.liftExcept fun he => .inl (h he)

/-- An operation on accounts or on the substate, by what it does to what is shown. -/
theorem of_mirrors {x : Action α} {y : ViewM α} (h : Mirrors x y)
    (hy : Admitted ctx (fun _ => ()) y) :
    Admitted ctx State.source x :=
  h.upholds (I := fun _ => True) (fun _ => .inl trivial) hy

theorem of_reads {x : Action α} {f : View → α} (h : Mirrors x (View.reads f)) :
    Admitted ctx State.source x :=
  of_mirrors h (View.reads_upholds f)

theorem of_writes {x : Action Unit} {f : View → View} (h : Mirrors x (View.writes f)) :
    Admitted ctx State.source x :=
  of_mirrors h (View.writes_upholds fun _ hv => hv)

theorem setBalance (a : Address) (b : Int) : Admitted ctx (fun _ => ()) (View.setBalance a b) :=
  View.setBalance_upholds (.inl trivial) fun _ hv => hv

theorem addBalance (a : Address) (x : Int) : Admitted ctx State.source (World.addBalance a x) :=
  of_mirrors (World.addBalance_mirrors a x) (Upholds.get.bind fun _ => setBalance _ _)

theorem subBalance (a : Address) (x : Int) : Admitted ctx State.source (World.subBalance a x) :=
  of_mirrors (World.subBalance_mirrors a x) (Upholds.get.bind fun _ => setBalance _ _)

theorem transfer (sender recipient : Address) (value : Int) :
    Admitted ctx State.source (World.transfer sender recipient value) :=
  (subBalance _ _).bind fun _ => addBalance _ _

theorem checkpoint : Admitted ctx State.source State.checkpoint := modify fun _ => rfl

theorem emit (e : Event) : Admitted ctx State.source (State.emit e) := modify fun _ => rfl

theorem commit : Admitted ctx State.source State.commit := by
  intro s
  rw [State.commit, get_bind]
  cases s.journal.commit? with
  | none => exact ⟨rfl, fun _ => .inl trivial⟩
  | some journal => exact ⟨rfl, id⟩

/-- Closing a layer and undoing its work, if one is open. -/
theorem revert : Admitted ctx State.source State.revert := by
  intro s
  rw [State.revert, get_bind]
  cases s.journal.revert? with
  | none => exact ⟨rfl, fun _ => .inl trivial⟩
  | some result =>
    exact ⟨(State.undoAll_retains { s with journal := result.2 } result.1).source, id⟩

theorem warmAccount (a : Address) : Admitted ctx State.source (Substate.warmAccount a) :=
  fun _ => ⟨rfl, id⟩

/-- What a contract that is built into the machine reports passes through. -/
theorem runPrecompile (c : Call) {a : Address} {precompile : Precompile}
    (h : ctx.precompiles[a]? = some precompile) :
    Admitted ctx State.source (c.runPrecompile precompile) := by
  refine (Upholds.liftExcept fun he => .inr ⟨a, precompile, _, _, h, he⟩).bind fun result => ?_
  dsimp only
  split
  · exact revert.bind fun _ => .pure _
  · exact commit.bind fun _ => .pure _

/-- **Starting a call**, from the checks to the frame. -/
theorem call_start (ctx : Context) (c : Call) : Admitted ctx State.source (c.start ctx) := by
  -- what is decided before there is a layer
  have hpreamble : Admitted ctx State.source (c.preamble ctx) := by
    refine .ite ((emit _).bind fun _ => .pure _) ?_
    refine (of_reads c.isUnfunded_mirrors).bind fun unfunded => ?_
    refine .ite ((emit _).bind fun _ => .pure _) ?_
    have hvoid : Admitted ctx State.source (c.isVoid ctx) :=
      .ite ((of_reads (World.isPresent_mirrors _)).bind fun _ => .pure _) (.pure _)
    exact hvoid.bind fun void => .ite (.pure _) (.pure _)
  have hmove : Admitted ctx State.source c.moveValue := by
    refine .ite ?_ (.pure _)
    refine (of_writes (World.touch_mirrors _)).bind fun _ =>
      (of_writes (Substate.touch_mirrors _)).bind fun _ => ?_
    exact .ite (transfer _ _ _) (.pure _)
  -- what happens inside of it; only here can a fault come from outside of the machine
  have hlayer : Admitted ctx State.source (c.inLayer ctx) := by
    refine hmove.bind fun _ => ?_
    cases hprecompile : ctx.precompiles[c.codeAddress]? with
    | some precompile => exact (runPrecompile c hprecompile).bind fun _ => .pure _
    | none =>
      refine (of_reads (World.code_mirrors _)).bind fun code => ?_
      refine .ite (commit.bind fun _ => .pure _) ?_
      exact (emit _).bind fun _ => .pure _
  rw [Call.start_eq]
  refine hpreamble.bind fun outcome? => ?_
  cases outcome? with
  | some outcome => exact .pure _
  | none => exact checkpoint.bind fun _ => hlayer

/-- **Starting a creation**, from the checks to the frame. -/
theorem creation_start (c : Creation) : Admitted ctx State.source c.start := by
  -- the creator's nonce is spent before the layer opens, so that no failure gives it back
  have hpreamble : Admitted ctx State.source c.preamble := by
    refine .ite (.pure _) ((of_reads (World.balance_mirrors _)).bind fun balance => ?_)
    refine .ite (.pure _) ((of_reads (World.nonce_mirrors _)).bind fun nonce => ?_)
    refine .ite (.pure _) ((of_writes (World.setNonce_mirrors _ _)).bind fun _ => ?_)
    refine (warmAccount _).discard.bind fun _ => ?_
    refine (of_reads (Creation.isTaken_mirrors _)).bind fun taken => ?_
    exact .ite ((emit _).bind fun _ => .pure _) (.pure _)
  have hlayer : Admitted ctx State.source c.inLayer := by
    refine (of_writes (World.create_mirrors _)).bind fun _ => ?_
    have hemit : Admitted ctx State.source (do
        State.emit (.createEntered c.depth c.address c.gas)
        return .frame c.frame : Action Start) := (emit _).bind fun _ => .pure _
    -- with or without a value, the event comes last
    split
    · exact (transfer _ _ _).bind fun _ => hemit
    · exact hemit
  rw [Creation.start_eq]
  refine hpreamble.bind fun outcome? => ?_
  cases outcome? with
  | some outcome => exact .pure _
  | none => exact checkpoint.bind fun _ => hlayer

/-! A frame and the state, by themselves. -/

/-- A computation on the state, beside a frame. -/
theorem liftState {x : Action α} (h : Admitted ctx State.source x) :
    Admitted ctx Activation.source (liftM x : EStateM Fault Activation α) := by
  rintro ⟨f, s⟩
  simp only [liftM, monadLift, MonadLift.monadLift]
  cases hx : x s with
  | ok r s' => exact ⟨h.fixes.ok hx, id⟩
  | error e s' => exact ⟨h.fixes.error hx, fun _ => h.error trivial hx⟩

/-- A computation on the frame, beside the state. -/
theorem liftFrame {x : EStateM Fault Frame α} (h : Admitted ctx (fun _ => ()) x) :
    Admitted ctx Activation.source (liftM x : EStateM Fault Activation α) := by
  rintro ⟨f, s⟩
  simp only [liftM, monadLift, MonadLift.monadLift]
  cases hx : x f with
  | ok r f' => exact ⟨rfl, id⟩
  | error e f' => exact ⟨rfl, fun _ => h.error trivial hx⟩

theorem beginCall (ctx : Context) (r : CallRequest) :
    Admitted ctx Activation.source (Frame.beginCall ctx r) := by
  unfold Frame.beginCall
  exact .bind (modify fun _ => rfl) fun _ => Upholds.get.bind fun _ => liftState (call_start ctx _)

/-- Finding the address of a contract. -/
theorem createAddress (self : Address) (r : CreateRequest) (initCode : ByteArray) :
    Admitted ctx State.source (Frame.createAddress self r initCode) := by
  rw [Frame.createAddress]
  cases r.salt with
  | some salt => exact liftExcept (Creation.saltedAddress_spares _ _ _)
  | none =>
    exact (of_reads (World.nonce_mirrors self)).bind fun _ =>
      liftExcept (Creation.addressAt_spares _ _)

theorem beginCreate (r : CreateRequest) : Admitted ctx Activation.source (Frame.beginCreate r) := by
  unfold Frame.beginCreate
  refine Upholds.get.bind fun a => ?_
  dsimp only
  exact .bind (modify fun _ => rfl) fun _ => (liftState (createAddress _ _ _)).bind fun _ =>
    liftState (creation_start _)

/-- Beginning whatever a frame waits for. -/
theorem begin (f : Frame) : Admitted ctx Activation.source (f.begin ctx) := by
  have hlacks : Admitted ctx Activation.source Frame.lackRequest := by
    unfold Frame.lackRequest
    exact .bind (modify fun _ => rfl) fun _ => throw trivial
  rw [Frame.begin]
  -- without a request there is a fault, and the counter has no part in it
  split
  · exact beginCall ctx _
  · exact beginCreate _
  · exact hlacks

/-- Copying the output of a call to memory. -/
theorem copyOutput (r : CallRequest) (output : ByteArray) :
    Admitted ctx (fun _ => ()) (r.copyOutput output) := by
  refine Upholds.get.bind fun f => ?_
  cases hwrite : f.memory.write r.returnOffset
      (Bytes.slice output 0 (min r.returnSize output.size)) with
  | error e => exact throw (f.memory.write_spares _ _ hwrite)
  | ok memory => exact modify fun _ => rfl

/-- Going on with an outcome. -/
theorem resume (o : Outcome) : Admitted ctx (fun _ => ()) (Frame.resume o) := by
  refine Upholds.get.bind fun f => ?_
  -- a frame that waits goes on, and one that does not is a fault
  cases f.mode with
  | awaitingCall request =>
    refine .bind (modify fun _ => rfl) fun _ =>
      .ite (.bind (modify fun _ => rfl) fun _ => ?_) (modify fun _ => rfl)
    cases request with
    | none =>
      have hlacks : Fault.missingRequest.SparesRefund := trivial
      exact (throw hlacks).bind fun _ => modify fun _ => rfl
    | some r => exact (copyOutput r o.output).bind fun _ => modify fun _ => rfl
  | awaitingCreate request =>
    refine .bind (modify fun _ => rfl) fun _ => ?_
    cases hword : o.createdWord with
    | error e => exact throw (o.createdWord_spares hword)
    | ok w => exact modify fun _ => rfl
  | running => exact throw trivial
  | exited exit => exact throw trivial

/-- Deploying the output of init code. -/
theorem deploy : Admitted ctx Activation.source Frame.deploy := by
  unfold Frame.deploy
  refine Upholds.get.bind fun a => ?_
  dsimp only
  cases deployFailure? a.frame.output a.frame.gas with
  | some failure => exact modify fun _ => rfl
  | none =>
    exact .bind (modify fun _ => rfl) fun _ => liftState (of_writes (World.setCode_mirrors _ _))

/-- Closing a frame that ended. -/
theorem close (f : Frame) : Admitted ctx Activation.source f.close := by
  have hemit (e : Event) :
      Admitted ctx Activation.source (liftM (State.emit e) : EStateM Fault Activation Unit) :=
    liftState (emit e)
  have hactive (mode : Mode) : Admitted ctx Activation.source (liftM State.revert >>= fun _ =>
      MonadExcept.throw (Fault.exitWhileActive mode.name) : EStateM Fault Activation Outcome) :=
    (liftState revert).bind fun _ => throw trivial
  rw [Frame.close]
  -- each way to end closes the layer, and then says so
  cases f.mode with
  | exited exit =>
    cases exit with
    | halted =>
      exact (liftState commit).bind fun _ => (hemit _).bind fun _ => .ite (.pure _) (.pure _)
    | reverted => exact (liftState revert).bind fun _ => (hemit _).bind fun _ => .pure _
    | failed e =>
      refine (liftState revert).bind fun _ => (hemit _).bind fun _ => ?_
      exact .bind (modify fun _ => rfl) fun _ => .pure _
  | running => exact hactive .running
  | awaitingCall request => exact hactive (.awaitingCall request)
  | awaitingCreate request => exact hactive (.awaitingCreate request)

/-- Leaving a frame. -/
theorem leave : Admitted ctx Activation.source Frame.leave := by
  refine .of_forall ?_
  rintro ⟨f, s⟩
  -- code is deployed before the layer is closed, and the frame that is closed is the one it leaves
  by_cases hdeploys : f.message.isInit = true ∧ f.mode = .exited .halted
  · exact ⟨_, deploy.bind fun _ => Upholds.get.bind fun a => close a.frame,
      Frame.leave_of_deploys hdeploys.1 hdeploys.2⟩
  · exact ⟨_, close f, Frame.leave_of_not_deploys hdeploys⟩

/-! The frames together. -/

/-- What the frame on top does, as a part of the machine. -/
theorem withTop {E : Fault → Prop} {x : EStateM Fault Activation α}
    (h : Upholds Activation.source (fun _ => True) E x) :
    Upholds Machine.source (fun _ => True) E (Machine.withTop x) := by
  rintro ⟨top, waiting, s⟩
  rw [Machine.withTop]
  cases hx : x ⟨top, s⟩ with
  | ok r a => exact ⟨h.fixes.ok hx, id⟩
  | error e a => exact ⟨h.fixes.error hx, fun _ => h.error trivial hx⟩

theorem enter (start : Start) : Admitted ctx Machine.source (Machine.enter start) := by
  cases start with
  | frame child => exact modify fun _ => rfl
  | done outcome => exact withTop (liftFrame (resume outcome))

/-- An iteration with a frame on top that waits. -/
theorem machine_begin (f : Frame) :
    Admitted ctx Machine.source (Machine.withTop (f.begin ctx) >>= fun start =>
    Machine.enter start >>= fun _ => (Pure.pure none : EStateM Fault Machine (Option Outcome))) :=
  (withTop (begin f)).bind fun start => (enter start).bind fun _ => .pure _

/-- An iteration with a frame on top that ended. -/
theorem machine_leave : Admitted ctx Machine.source Machine.leave := by
  refine (withTop leave).bind fun outcome => Upholds.get.bind fun m => ?_
  -- with no frame below, the outcome is that of the execution
  cases m.waiting with
  | nil => exact .pure _
  | cons parent rest =>
    refine .bind (modify ?_) fun _ => (withTop (liftFrame (resume outcome))).bind fun _ => .pure _
    exact fun _ => rfl

end Admitted

namespace Machine

variable {ctx : Context} {m m' : Machine} {e : Fault}

/-- **An iteration leaves the source alone.** -/
theorem iterate_fixes (ctx : Context) : Fixes source (iterate ctx) := by
  intro m
  -- a step, a request or the end of a frame, by the mode of the frame on top
  by_cases hactive : m.top.Active
  · by_cases hmode : m.top.mode = .running
    · rw [iterate_of_running hmode]
      exact ((Admitted.withTop (step_fixes ctx).upholds).bind fun _ => .pure _).fixes m
    · rw [iterate_of_waits hactive hmode]
      exact (Admitted.machine_begin m.top).fixes m
  · obtain ⟨exit, hexit⟩ := Frame.exited_of_not_active hactive
    have hleave : Admitted ctx source leave := Admitted.machine_leave
    rw [iterate_of_exited hexit]
    exact hleave.fixes m

/-- **No iteration asks the refund counter for more than it holds.** -/
theorem iterate_error (hm : m.state.Covered) (h : iterate ctx m = .error e m') : ctx.Admits e := by
  -- only in a step could the refund counter be asked for too much
  by_cases hactive : m.top.Active
  · by_cases hmode : m.top.mode = .running
    · rw [iterate_of_running hmode] at h
      -- the rest of the iteration cannot fail
      rcases bind_error_iff.mp h with hstep | ⟨_, m₁, -, hpure⟩
      · obtain ⟨top, waiting, s⟩ := m
        rw [withTop] at hstep
        cases hx : step ctx ⟨top, s⟩ with
        | ok u a =>
          rw [hx] at hstep
          cases hstep
        | error e' a =>
          rw [hx] at hstep
          cases hstep
          exact .inl (step_sparesRefund hmode hm hx)
      · exact absurd hpure pure_ne_error
    · rw [iterate_of_waits hactive hmode] at h
      exact (Admitted.machine_begin m.top).error trivial h
  · obtain ⟨exit, hexit⟩ := Frame.exited_of_not_active hactive
    rw [iterate_of_exited hexit] at h
    exact Admitted.machine_leave.error trivial h

/-- **The frame on top never fails by a refusal**: a step does not, and any other iteration leaves a
frame on top that runs. -/
theorem iterate_not_isRefusal {failure : Failure} (hm : m.state.Covered)
    (h : iterate ctx m = .ok none m') (hfailed : m'.top.mode = .exited (.failed failure)) :
    ¬failure.IsRefusal := by
  by_cases hmode : m.top.mode = .running
  · rw [iterate_of_running hmode] at h
    obtain ⟨_, m₁, htop, hpure⟩ := bind_ok_iff.mp h
    obtain ⟨-, rfl⟩ := pure_ok_iff.mp hpure
    obtain ⟨top, waiting, s⟩ := m
    obtain ⟨f', s', hstep, rfl⟩ := withTop_ok_iff.mp htop
    exact step_not_isRefusal hmode hm hstep hfailed
  · have hrunning : m'.top.mode = .running := by
      -- everything but a step ends with a frame on top that was just started or just resumed
      cases iterates_of_iterate h with
      | step hrunning _ => exact absurd hrunning hmode
      | push hbegins => exact hbegins.child_mode
      | resume _ hresumes => exact hresumes.mode
      | pop _ hresumes => exact hresumes.mode
    rw [hrunning] at hfailed
    cases hfailed

/-- A run that comes to a fault does so in one of its iterations, or is cut off. -/
theorem exists_runsAbove_of_run_error {k : Nat} (h : run ctx k m = .error e m') :
    e = .unbounded ∨ ∃ m₁, RunsAbove ctx 0 m m₁ ∧ iterate ctx m₁ = .error e m' := by
  -- on the bound: the faulty iteration is the first one, or lies in the rest
  induction k generalizing m with
  | zero =>
    cases h
    exact .inl rfl
  | succ k ih =>
    rw [run] at h
    cases hiterate : iterate ctx m with
    | error e₁ m₁ =>
      rw [hiterate] at h
      cases h
      exact .inr ⟨m, .refl, hiterate⟩
    | ok o? m₁ =>
      rw [hiterate] at h
      cases o? with
      | some o => cases h
      | none =>
        refine (ih h).imp_right ?_
        rintro ⟨m₂, hruns, hlast⟩
        exact ⟨m₂, .head ⟨hiterate, Nat.zero_le _⟩ hruns, hlast⟩

/-- The refund counter stays covered between two iterations. -/
theorem RunsAbove.covered (h : RunsAbove ctx 0 m m') (hwaiting : m.waiting = [])
    (hm : m.state.Covered) :
    m'.state.Covered := by
  -- with no frame below, the state before the run is the bottom of the layers
  have hnested : m.Nested (Carries View.RefundCovered) m.state 0 :=
    ⟨[], congrArg List.length hwaiting.symm, .root (Std.Refl.refl _)⟩
  obtain ⟨cs, -, hlayered⟩ := h.nested View.RefundCovered.respected hnested
  exact hlayered.respects hm

/-- **Nor does a whole run.** -/
theorem run_error {k : Nat} (hwaiting : m.waiting = []) (hm : m.state.Covered)
    (h : run ctx k m = .error e m') : ctx.Admits e := by
  obtain rfl | ⟨m₁, hruns, hiterate⟩ := exists_runsAbove_of_run_error h
  · exact .inl trivial
  · exact iterate_error (hruns.covered hwaiting hm) hiterate

end Machine

/-- What was started comes to a fault only in a run of the machine. -/
theorem Start.finish_frame_error {ctx : Context} {entry : Frame} {s s' : State} {e : Fault}
    (h : (Start.frame entry).finish ctx s = .error e s') :
    ∃ k m, Machine.run ctx k { top := entry, state := s } = .error e m := by
  rw [Start.finish] at h
  beta_reduce at h
  rw [execute] at h
  -- the bound on the iterations is never to be evaluated
  generalize iterationBound entry.gas = k at h
  cases hrun : Machine.run ctx k { top := entry, state := s } with
  | ok outcome m =>
    rw [hrun] at h
    cases h
  | error e' m =>
    rw [hrun] at h
    cases h
    exact ⟨k, m, hrun⟩

end EvmCore
