import EvmCore.Proofs.Phase
import EvmCore.Proofs.Start
import Mathlib

/-!
# What an iteration of the machine does

`Iterates ctx m m'` and `Finishes ctx m o m'` say everything about one iteration: the top frame
takes a step, a frame is put on top of it, it goes on with the outcome of a call or a creation that
came to nothing, or it is left and the frame below goes on; and it is left with none below, which
ends the execution. They rest on `Steps`, on the two `Starts`, on `Leaves` and on `Resumes`, one for
each thing that can happen to a frame.
-/

namespace EvmCore

/-! ### Going on with a frame -/

/-- A frame that waited goes on with an outcome. -/
structure Resumes (f : Frame) (o : Outcome) (f' : Frame) : Prop where
  message : f'.message = f.message
  gas : f'.gas = f.gas + o.gasLeft
  mode : f'.mode = .running
  pc : f'.pc = f.pc + 1
  stack : ∃ w, f'.stack = w :: f.stack ∧ (w = Word.ofBool o.success ∨ o.createdWord = .ok w)
  memory : f'.memory = f.memory ∨ ∃ r data, f.mode = .awaitingCall (some r) ∧
    f.memory.checkWrite r.returnOffset data.size = .ok () ∧
    f'.memory = f.memory.overwrite r.returnOffset data
  returnData : f'.returnData = .empty ∨ f'.returnData = o.output
  output : f'.output = f.output

/-- The part of the output of a call that the caller asked for. -/
def CallRequest.returned (r : CallRequest) (output : ByteArray) : ByteArray :=
  Bytes.slice output 0 (min r.returnSize output.size)

namespace Frame

/-- The part that was asked for is written where the caller wanted it. -/
theorem copyOutput_ok {r : CallRequest} {output : ByteArray} {f f' : Frame} {u : Unit}
    (h : r.copyOutput output f = .ok u f') :
    f.memory.checkWrite r.returnOffset (r.returned output).size = .ok () ∧
      f' = { f with memory := f.memory.overwrite r.returnOffset (r.returned output) } := by
  rw [CallRequest.copyOutput, get_bind] at h
  rw [CallRequest.returned]
  cases hwrite : f.memory.write r.returnOffset
      (Bytes.slice output 0 (min r.returnSize output.size)) with
  | error e =>
    rw [hwrite] at h
    cases h
  | ok memory =>
    rw [hwrite] at h
    obtain ⟨hcheck, rfl⟩ := Memory.write_ok_iff.mp hwrite
    exact ⟨hcheck, (modify_ok_iff.mp h).symm⟩

/-- Going on after a call. Only one that halted or reverted has its output copied. -/
theorem resumes_of_resumeCall {request : Option CallRequest} {o : Outcome} {f f' : Frame} {u : Unit}
    (hmode : f.mode = .awaitingCall request) (h : resumeCall request o f = .ok u f') :
    Resumes f o f' := by
  obtain ⟨_, f₁, hpush, h⟩ := bind_ok_iff.mp h
  obtain rfl := modify_ok_iff.mp hpush
  split at h
  · obtain ⟨_, f₂, hdata, h⟩ := bind_ok_iff.mp h
    obtain rfl := modify_ok_iff.mp hdata
    cases request with
    | none =>
      -- without a request there is no place to copy the output to
      cases h
    | some request =>
      obtain ⟨_, f₃, hcopy, h⟩ := bind_ok_iff.mp h
      obtain ⟨hcheck, rfl⟩ := copyOutput_ok hcopy
      -- which bytes are written does not matter here
      generalize request.returned o.output = data at hcheck h
      obtain rfl := modify_ok_iff.mp h
      exact ⟨rfl, rfl, rfl, rfl, ⟨_, rfl, .inl rfl⟩, .inr ⟨request, data, hmode, hcheck, rfl⟩,
        .inr rfl, rfl⟩
  · obtain rfl := modify_ok_iff.mp h
    exact ⟨rfl, rfl, rfl, rfl, ⟨_, rfl, .inl rfl⟩, .inl rfl, .inl rfl, rfl⟩

/-- Going on after a creation, with the word for its address. -/
theorem resumes_of_resumeCreate {o : Outcome} {f f' : Frame} {u : Unit}
    (h : resumeCreate o f = .ok u f') : Resumes f o f' := by
  obtain ⟨_, f₁, hgas, h⟩ := bind_ok_iff.mp h
  obtain rfl := modify_ok_iff.mp hgas
  cases hword : o.createdWord with
  | error e =>
    rw [hword] at h
    cases h
  | ok w =>
    rw [hword] at h
    obtain rfl := modify_ok_iff.mp h
    refine ⟨rfl, rfl, rfl, rfl, ⟨w, rfl, .inr hword⟩, .inl rfl, ?_, rfl⟩
    dsimp only
    -- only a creation that was reverted hands its output on
    split
    · exact .inr rfl
    · exact .inl rfl

/-- **What going on with a frame does.** -/
theorem resumes_of_resume {o : Outcome} {f f' : Frame} {u : Unit} (h : resume o f = .ok u f') :
    Resumes f o f' := by
  rw [resume, get_bind] at h
  cases hmode : f.mode with
  | awaitingCall request =>
    rw [hmode] at h
    exact resumes_of_resumeCall hmode h
  | awaitingCreate request =>
    rw [hmode] at h
    exact resumes_of_resumeCreate h
  -- a frame that does not wait cannot go on
  | _ =>
    rw [hmode] at h
    cases h

end Frame

/-! ### Leaving a frame -/

/-- A frame that ended is left with an outcome. -/
inductive Leaves (f : Frame) (s : State) : Outcome → State → Prop
  | halted {s₁ s' : State} : f.mode = .exited .halted → f.message.isInit = false →
      State.commit s = .ok () s₁ → Quiet s₁ s' →
      Leaves f s { exit := .halted, gasLeft := f.gas, output := f.output } s'
  | deployed {s₀ s₁ s' : State} : f.mode = .exited .halted → f.message.isInit = true →
      deployFailure? f.output f.gas = none → Grows s s₀ →
      s₀.view = s.view.update f.message.self ({ · with code := f.output }) →
      State.commit s₀ = .ok () s₁ → Quiet s₁ s' →
      Leaves f s
        { exit := .halted
          gasLeft := f.gas - f.output.size * Gas.createByte
          created := some f.message.self } s'
  | undeployable {e : Failure} {s₁ s' : State} : f.mode = .exited .halted →
      f.message.isInit = true → deployFailure? f.output f.gas = some e →
      State.revert s = .ok () s₁ → Quiet s₁ s' →
      Leaves f s { exit := .failed e, gasLeft := 0 } s'
  | reverted {s₁ s' : State} : f.mode = .exited .reverted →
      State.revert s = .ok () s₁ → Quiet s₁ s' →
      Leaves f s { exit := .reverted, gasLeft := f.gas, output := f.output } s'
  | failed {e : Failure} {s₁ s' : State} : f.mode = .exited (.failed e) →
      State.revert s = .ok () s₁ → Quiet s₁ s' →
      Leaves f s { exit := .failed e, gasLeft := 0 } s'

section Activation

variable {f : Frame} {s : State} {a' : Activation} {α : Type}

/-- A computation on the state leaves the frame alone. -/
theorem liftState_apply (x : Action α) (f : Frame) (s : State) :
    (liftM x : EStateM Fault Activation α) ⟨f, s⟩ = mapResult id (Activation.mk f) (x s) := by
  simp only [liftM, monadLift, MonadLift.monadLift]
  cases x s with
  | ok a r' => rfl
  | error e r' => rfl

theorem liftState_ok_iff {x : Action α} {r : α} :
    (liftM x : EStateM Fault Activation α) ⟨f, s⟩ = .ok r a' ↔
      ∃ s', x s = .ok r s' ∧ a' = ⟨f, s'⟩ := by
  rw [liftState_apply]
  exact mapResult_ok_iff

/-- The state is asked or changed, and the rest goes on with the answer. -/
theorem liftState_bind_ok {β : Type} {x : Action β} {g : β → EStateM Fault Activation α} {r : α}
    (h : ((liftM x : EStateM Fault Activation β) >>= g) ⟨f, s⟩ = .ok r a') :
    ∃ b s', x s = .ok b s' ∧ g b ⟨f, s'⟩ = .ok r a' := by
  obtain ⟨b, a₁, hlift, h⟩ := bind_ok_iff.mp h
  obtain ⟨s', hx, rfl⟩ := liftState_ok_iff.mp hlift
  exact ⟨b, s', hx, h⟩

/-- A computation on the frame leaves the state alone. -/
theorem liftFrame_apply (x : EStateM Fault Frame α) (f : Frame) (s : State) :
    (liftM x : EStateM Fault Activation α) ⟨f, s⟩ = mapResult id (Activation.mk · s) (x f) := by
  simp only [liftM, monadLift, MonadLift.monadLift]
  cases x f with
  | ok a r' => rfl
  | error e r' => rfl

theorem liftFrame_ok_iff {x : EStateM Fault Frame α} {r : α} :
    (liftM x : EStateM Fault Activation α) ⟨f, s⟩ = .ok r a' ↔
      ∃ f', x f = .ok r f' ∧ a' = ⟨f', s⟩ := by
  rw [liftFrame_apply]
  exact mapResult_ok_iff

end Activation

namespace Frame

variable {f : Frame} {s : State} {a' : Activation} {o : Outcome}

/-- What is left to do once it is known whether the output can be deployed. -/
def close (f : Frame) : EStateM Fault Activation Outcome :=
  match f.mode with
  | .exited .halted => do
    State.commit
    State.emit (.frameHalted f.message.depth f.gas)
    if f.message.isInit then
      return { exit := .halted, gasLeft := f.gas, created := some f.message.self }
    return { exit := .halted, gasLeft := f.gas, output := f.output }
  | .exited .reverted => do
    State.revert
    State.emit (.frameReverted f.message.depth f.gas)
    return { exit := .reverted, gasLeft := f.gas, output := f.output }
  | .exited (.failed failure) => do
    State.revert
    State.emit (.frameFailed f.message.depth failure)
    modify fun a => { a with frame := { a.frame with gas := 0 } }
    return { exit := .failed failure, gasLeft := 0 }
  | mode => do
    State.revert
    throw (.exitWhileActive mode.name)

/-- Init code that halted deploys its output first. -/
theorem leave_of_deploys (h : f.message.isInit = true) (hmode : f.mode = .exited .halted) :
    leave ⟨f, s⟩ = (deploy >>= fun _ => get >>= fun a => a.frame.close) ⟨f, s⟩ := by
  rw [leave, get_bind]
  simp only [h, hmode, decide_true, Bool.and_self, if_true]
  rfl

/-- Any other frame is closed right away. -/
theorem leave_of_not_deploys (h : ¬(f.message.isInit = true ∧ f.mode = .exited .halted)) :
    leave ⟨f, s⟩ = f.close ⟨f, s⟩ := by
  -- the two conditions are tested as one
  have hfalse : ¬((f.message.isInit && decide (f.mode = .exited .halted)) = true) := by
    rwa [Bool.and_eq_true, decide_eq_true_eq]
  rw [leave, get_bind]
  simp only [if_neg hfalse]
  rfl

/-- A frame that halted is committed, and its outcome is that of a call or of a creation. -/
theorem close_halted (hmode : f.mode = .exited .halted) (h : f.close ⟨f, s⟩ = .ok o a') :
    ∃ s₁, State.commit s = .ok () s₁ ∧ Quiet s₁ a'.state ∧
      o = if f.message.isInit then
          { exit := .halted, gasLeft := f.gas, created := some f.message.self }
        else { exit := .halted, gasLeft := f.gas, output := f.output } := by
  rw [close, hmode] at h
  obtain ⟨_, s₁, hcommit, h⟩ := liftState_bind_ok h
  obtain ⟨_, s₂, hemit, h⟩ := liftState_bind_ok h
  have hquiet := State.emit_quiet _ hemit
  refine ⟨s₁, hcommit, ?_⟩
  -- init code has created its own account, and any other code has an output
  cases hinit : f.message.isInit with
  | true =>
    rw [hinit] at h
    obtain ⟨rfl, rfl⟩ := pure_ok_iff.mp h
    exact ⟨hquiet, rfl⟩
  | false =>
    rw [hinit] at h
    obtain ⟨rfl, rfl⟩ := pure_ok_iff.mp h
    exact ⟨hquiet, rfl⟩

/-- A frame that reverted gives its gas and its output back. -/
theorem close_reverted (hmode : f.mode = .exited .reverted) (h : f.close ⟨f, s⟩ = .ok o a') :
    ∃ s₁, State.revert s = .ok () s₁ ∧ Quiet s₁ a'.state ∧
      o = { exit := .reverted, gasLeft := f.gas, output := f.output } := by
  rw [close, hmode] at h
  obtain ⟨_, s₁, hrevert, h⟩ := liftState_bind_ok h
  obtain ⟨_, s₂, hemit, h⟩ := liftState_bind_ok h
  obtain ⟨rfl, rfl⟩ := pure_ok_iff.mp h
  exact ⟨s₁, hrevert, State.emit_quiet _ hemit, rfl⟩

/-- A frame that failed gives nothing back. -/
theorem close_failed {e : Failure} (hmode : f.mode = .exited (.failed e))
    (h : f.close ⟨f, s⟩ = .ok o a') :
    ∃ s₁, State.revert s = .ok () s₁ ∧ Quiet s₁ a'.state ∧
      o = { exit := .failed e, gasLeft := 0 } := by
  rw [close, hmode] at h
  obtain ⟨_, s₁, hrevert, h⟩ := liftState_bind_ok h
  obtain ⟨_, s₂, hemit, h⟩ := liftState_bind_ok h
  obtain ⟨_, a₃, hmodify, h⟩ := bind_ok_iff.mp h
  obtain rfl := modify_ok_iff.mp hmodify
  obtain ⟨rfl, rfl⟩ := pure_ok_iff.mp h
  exact ⟨s₁, hrevert, State.emit_quiet _ hemit, rfl⟩

/-- A frame in a mode that does not end it cannot be left. -/
theorem close_active (hmode : ∀ exit, f.mode ≠ .exited exit) : f.close ⟨f, s⟩ ≠ .ok o a' := by
  -- its layer is reverted first, but that does not save it
  have hthrow (mode : Mode) : (liftM State.revert >>= fun _ =>
      throw (Fault.exitWhileActive mode.name) : EStateM Fault Activation Outcome) ⟨f, s⟩ ≠
        .ok o a' := by
    intro h
    obtain ⟨_, a₁, -, h⟩ := bind_ok_iff.mp h
    exact throw_ne_ok h
  rw [close]
  cases hf : f.mode with
  | exited exit => exact absurd hf (hmode exit)
  | running => exact hthrow .running
  | awaitingCall request => exact hthrow (.awaitingCall request)
  | awaitingCreate request => exact hthrow (.awaitingCreate request)

/-- Deploying fails the frame and leaves the state alone, or sets the code for its price. -/
theorem deploy_ok {u : Unit} (h : deploy ⟨f, s⟩ = .ok u a') :
    (∃ e, deployFailure? f.output f.gas = some e ∧
      a' = ⟨{ f with mode := .exited (.failed e) }, s⟩) ∨
    (deployFailure? f.output f.gas = none ∧ ∃ s₀, Grows s s₀ ∧
      s₀.view = s.view.update f.message.self ({ · with code := f.output }) ∧
      a' = ⟨{ f with gas := f.gas - f.output.size * Gas.createByte }, s₀⟩) := by
  rw [deploy, get_bind] at h
  cases hfailure : deployFailure? f.output f.gas with
  | some e =>
    rw [hfailure] at h
    exact .inl ⟨e, rfl, (modify_ok_iff.mp h).symm⟩
  | none =>
    rw [hfailure] at h
    obtain ⟨_, a₁, hmodify, h⟩ := bind_ok_iff.mp h
    obtain rfl := modify_ok_iff.mp hmodify
    -- the gas is taken before the code is set, and the layer of the frame covers only the latter
    obtain ⟨s₀, hcode, rfl⟩ := liftState_ok_iff.mp h
    have hmirrors := World.setCode_mirrors f.message.self f.output
    exact .inr ⟨rfl, s₀, hmirrors.grows hcode, hmirrors.view_eq hcode, rfl⟩

/-- **What leaving a frame does.** -/
theorem leaves_of_leave (h : leave ⟨f, s⟩ = .ok o a') : Leaves f s o a'.state := by
  by_cases hdeploys : f.message.isInit = true ∧ f.mode = .exited .halted
  · -- Init code that halted: deploying its output comes first, and can still fail the frame.
    obtain ⟨hinit, hmode⟩ := hdeploys
    rw [leave_of_deploys hinit hmode] at h
    obtain ⟨_, a₁, hdeploy, h⟩ := bind_ok_iff.mp h
    rw [get_bind] at h
    obtain ⟨e, hfailure, rfl⟩ | ⟨hfailure, s₀, hgrows, hview, rfl⟩ := deploy_ok hdeploy
    · obtain ⟨s₁, hrevert, hquiet, rfl⟩ := close_failed (e := e) rfl h
      exact .undeployable hmode hinit hfailure hrevert hquiet
    · obtain ⟨s₁, hcommit, hquiet, rfl⟩ := close_halted
        (f := { f with gas := f.gas - f.output.size * Gas.createByte }) hmode h
      simp only [hinit, if_true]
      exact .deployed hmode hinit hfailure hgrows hview hcommit hquiet
  · -- Otherwise the mode alone decides.
    rw [leave_of_not_deploys hdeploys] at h
    cases hmode : f.mode with
    | exited exit =>
      cases exit with
      | halted =>
        have hinit : f.message.isInit = false :=
          Bool.eq_false_iff.mpr fun hinit => hdeploys ⟨hinit, hmode⟩
        obtain ⟨s₁, hcommit, hquiet, rfl⟩ := close_halted hmode h
        simp only [hinit, Bool.false_eq_true, if_false]
        exact .halted hmode hinit hcommit hquiet
      | reverted =>
        obtain ⟨s₁, hrevert, hquiet, rfl⟩ := close_reverted hmode h
        exact .reverted hmode hrevert hquiet
      | failed e =>
        obtain ⟨s₁, hrevert, hquiet, rfl⟩ := close_failed hmode h
        exact .failed hmode hrevert hquiet
    | _ =>
      refine absurd h (close_active fun exit hexit => ?_)
      rw [hmode] at hexit
      cases hexit

end Frame

/-! ### Beginning what a frame requests -/

/-- The creation that a frame requests, once the address is known. -/
def CreateRequest.toCreation (r : CreateRequest) (f : Frame) (address : Address) : Creation where
  creator := f.message.self
  address
  initCode := f.memory.read r.inputOffset r.inputSize
  gas := f.gas - f.gas / 64
  value := r.value
  depth := f.message.depth + 1

/-- What a frame that creates keeps of its gas: one part in 64. One that has
less than none cannot pay. -/
def Frame.keptGas (f : Frame) : Int := if f.gas < 0 then f.gas else f.gas / 64

/-- A frame that does not owe its init code anything keeps what it does not give. -/
theorem Frame.keptGas_of_nonneg {f : Frame} (h : 0 ≤ f.gas - f.gas / 64) :
    f.keptGas = f.gas - (f.gas - f.gas / 64) := by
  rw [keptGas]
  split
  · omega
  · omega

/-- What a frame pays for its init code. -/
theorem Frame.useGas?_forwarded (f : Frame) :
    (f.useGas? (f.gas - f.gas / 64)).getD f = { f with gas := f.keptGas } := by
  rw [useGas?, keptGas]
  by_cases h : f.gas < 0
  · rw [if_pos (by omega), if_pos h]
    rfl
  · rw [if_neg (by omega), if_neg h, Int.sub_sub_self]
    rfl

/-- A frame begins what it requests. It becomes `f'` and waits, or has the outcome at once. -/
inductive Begins (ctx : Context) (f : Frame) (s : State) : Frame → Start → State → Prop
  | call {r : CallRequest} {start : Start} {s' : State} : f.mode = .awaitingCall (some r) →
      Call.Starts ctx (r.toCall f) s start s' →
      Begins ctx f s { f with returnData := .empty } start s'
  | create {r : CreateRequest} {address : Address} {start : Start} {s₀ s' : State} :
      f.mode = .awaitingCreate (some r) →
      Frame.createAddress f.message.self r (f.memory.read r.inputOffset r.inputSize) s =
        .ok address s₀ →
      Quiet s s₀ → Creation.Starts (r.toCreation f address) s₀ start s' →
      Begins ctx f s { f with returnData := .empty, gas := f.keptGas } start s'

/-- To begin something does not change the message. -/
theorem Begins.message {ctx : Context} {f f' : Frame} {s s' : State} {start : Start}
    (h : Begins ctx f s f' start s') : f'.message = f.message := by
  cases h with
  | call => rfl
  | create => rfl

/-- A frame waits in the mode in which it made its request. -/
theorem Begins.mode_eq {ctx : Context} {f f' : Frame} {s s' : State} {start : Start}
    (h : Begins ctx f s f' start s') : f'.mode = f.mode := by
  cases h with
  | call => rfl
  | create => rfl

/-- The frame that is started is running. -/
theorem Begins.child_mode {ctx : Context} {f f' child : Frame} {s s' : State}
    (h : Begins ctx f s f' (.frame child) s') : child.mode = .running := by
  cases h with
  | call _ hstarts => exact hstarts.child_mode
  | create _ _ _ hstarts => exact hstarts.child_mode

namespace Frame

variable {ctx : Context} {f f' : Frame} {s s' : State} {start : Start}

/-- To find the address of a contract at most asks for a nonce. -/
theorem createAddress_quiet (self : Address) (r : CreateRequest) (initCode : ByteArray) :
    Keeps Quiet (createAddress self r initCode) := by
  rw [createAddress]
  cases r.salt with
  | some salt => exact Action.keeps_liftExcept _
  | none => exact (World.nonce_mirrors self).quiet.bind fun _ => Action.keeps_liftExcept _

/-- A frame that waits for a request it never made cannot begin. -/
theorem lackRequest_ne_ok {a a' : Activation} : lackRequest a ≠ .ok start a' := by
  intro h
  obtain ⟨_, a₁, -, hthrow⟩ := bind_ok_iff.mp h
  exact throw_ne_ok hthrow

/-- A call is begun by starting it from a frame without return data. -/
theorem begins_of_beginCall {r : CallRequest} (hmode : f.mode = .awaitingCall (some r))
    (h : beginCall ctx r ⟨f, s⟩ = .ok start ⟨f', s'⟩) : Begins ctx f s f' start s' := by
  obtain ⟨_, a₁, hmodify, h⟩ := bind_ok_iff.mp h
  obtain rfl := modify_ok_iff.mp hmodify
  rw [get_bind] at h
  obtain ⟨s₁, hstart, hf⟩ := liftState_ok_iff.mp h
  cases hf
  exact .call hmode (Call.starts_of_start hstart)

/-- To begin a creation is to pay for the init code, to find the address and to start. -/
theorem beginCreate_eq (r : CreateRequest) (f : Frame) (s : State) : beginCreate r ⟨f, s⟩ =
    ((liftM (createAddress f.message.self r (f.memory.read r.inputOffset r.inputSize)) :
        EStateM Fault Activation Address) >>= fun address =>
      (liftM (r.toCreation f address).start : EStateM Fault Activation Start))
      ⟨{ f with returnData := .empty, gas := f.keptGas }, s⟩ := by
  -- what the frame is left with is what it did not pay
  have hframe : ({ f with returnData := .empty, gas := f.keptGas } : Frame) =
      { (f.useGas? (f.gas - f.gas / 64)).getD f with returnData := .empty } := by
    rw [f.useGas?_forwarded]
  rw [beginCreate, get_bind, hframe]
  rfl

/-- A creation is begun by starting it from a frame that has paid for the init code. -/
theorem begins_of_beginCreate {r : CreateRequest} (hmode : f.mode = .awaitingCreate (some r))
    (h : beginCreate r ⟨f, s⟩ = .ok start ⟨f', s'⟩) : Begins ctx f s f' start s' := by
  rw [beginCreate_eq] at h
  obtain ⟨address, s₀, haddress, h⟩ := liftState_bind_ok h
  obtain ⟨s₁, hstart, hf⟩ := liftState_ok_iff.mp h
  cases hf
  exact .create hmode haddress (createAddress_quiet _ _ _ haddress)
    (Creation.starts_of_start hstart)

end Frame

/-! ### Iterations -/

/-- One iteration of the machine that does not end the execution. -/
inductive Iterates (ctx : Context) : Machine → Machine → Prop
  /-- The top frame takes a step. -/
  | step {f f' : Frame} {waiting : List Frame} {s s' : State} : f.mode = .running →
      Steps ctx f s f' s' → Iterates ctx ⟨f, waiting, s⟩ ⟨f', waiting, s'⟩
  /-- A child is put on top. -/
  | push {f f' child : Frame} {waiting : List Frame} {s s' : State} :
      Begins ctx f s f' (.frame child) s' →
      Iterates ctx ⟨f, waiting, s⟩ ⟨child, f' :: waiting, s'⟩
  /-- What the top frame requests comes to nothing. -/
  | resume {f f₁ f' : Frame} {waiting : List Frame} {s s' : State} {o : Outcome} :
      Begins ctx f s f₁ (.done o) s' → Resumes f₁ o f' →
      Iterates ctx ⟨f, waiting, s⟩ ⟨f', waiting, s'⟩
  /-- The top frame is left, and its parent goes on. -/
  | pop {f parent parent' : Frame} {waiting : List Frame} {s s' : State} {o : Outcome} :
      Leaves f s o s' → Resumes parent o parent' →
      Iterates ctx ⟨f, parent :: waiting, s⟩ ⟨parent', waiting, s'⟩

namespace Machine

variable {ctx : Context} {top : Frame} {waiting : List Frame} {s : State}
  {m m' : Machine} {α : Type}

/-- What the frame on top and the state do, those that wait only watch. -/
theorem withTop_ok_iff {action : EStateM Fault Activation α} {r : α} :
    withTop action ⟨top, waiting, s⟩ = .ok r m' ↔
      ∃ top' s', action ⟨top, s⟩ = .ok r ⟨top', s'⟩ ∧ m' = ⟨top', waiting, s'⟩ := by
  rw [withTop]
  -- an error of the action is one of the machine
  cases action ⟨top, s⟩ with
  | ok a a' =>
    constructor
    · intro h
      obtain ⟨rfl, rfl⟩ := EStateM.Result.ok.inj h
      exact ⟨_, _, rfl, rfl⟩
    · rintro ⟨top', s', h, rfl⟩
      obtain ⟨rfl, rfl⟩ := EStateM.Result.ok.inj h
      rfl
  | error e a' =>
    constructor
    · intro h
      cases h
    · rintro ⟨top', s', h, -⟩
      cases h

/-- Beginning a request of the top frame and going on with what comes of it. -/
theorem iterates_of_enter {action : EStateM Fault Activation Start} {o? : Option Outcome}
    (hbegins : ∀ start f' s', action ⟨top, s⟩ = .ok start ⟨f', s'⟩ → Begins ctx top s f' start s')
    (h : (withTop action >>= fun start => enter start >>= fun _ => pure none) ⟨top, waiting, s⟩ =
      .ok o? m') : o? = none ∧ Iterates ctx ⟨top, waiting, s⟩ m' := by
  obtain ⟨start, m₁, htop, h⟩ := bind_ok_iff.mp h
  obtain ⟨f', s', haction, rfl⟩ := withTop_ok_iff.mp htop
  obtain ⟨_, m₂, henter, h⟩ := bind_ok_iff.mp h
  obtain ⟨rfl, rfl⟩ := pure_ok_iff.mp h
  have hbegins := hbegins start f' s' haction
  refine ⟨rfl, ?_⟩
  -- a child is put on top; an outcome is handed to the frame itself
  cases start with
  | frame child =>
    obtain rfl := modify_ok_iff.mp henter
    exact .push hbegins
  | done o =>
    obtain ⟨f₂, s₂, hlift, rfl⟩ := withTop_ok_iff.mp henter
    obtain ⟨f₃, hresume, hf⟩ := liftFrame_ok_iff.mp hlift
    cases hf
    exact .resume hbegins (Frame.resumes_of_resume hresume)

/-- Leaving the top frame, whether or not one is left below. -/
theorem leave_cases {o? : Option Outcome} (h : leave ⟨top, waiting, s⟩ = .ok o? m') :
    ∃ o, Leaves top s o m'.state ∧
      ((waiting = [] ∧ o? = some o) ∨
        ∃ parent rest parent', waiting = parent :: rest ∧ o? = none ∧ Resumes parent o parent' ∧
          m' = ⟨parent', rest, m'.state⟩) := by
  obtain ⟨o, m₁, htop, h⟩ := bind_ok_iff.mp h
  obtain ⟨f₁, s₁, hleave, rfl⟩ := withTop_ok_iff.mp htop
  have hleaves := Frame.leaves_of_leave hleave
  rw [get_bind] at h
  -- with no frame below, the outcome is that of the execution
  cases waiting with
  | nil =>
    obtain ⟨rfl, rfl⟩ := pure_ok_iff.mp h
    exact ⟨o, hleaves, .inl ⟨rfl, rfl⟩⟩
  | cons parent rest =>
    obtain ⟨_, m₂, hmodify, h⟩ := bind_ok_iff.mp h
    -- the frame below becomes the top one, and only then goes on
    obtain rfl := modify_ok_iff.mp hmodify
    obtain ⟨_, m₃, htop, h⟩ := bind_ok_iff.mp h
    obtain ⟨rfl, rfl⟩ := pure_ok_iff.mp h
    obtain ⟨f₂, s₂, hlift, rfl⟩ := withTop_ok_iff.mp htop
    obtain ⟨f₃, hresume, hf⟩ := liftFrame_ok_iff.mp hlift
    cases hf
    exact ⟨o, hleaves, .inr ⟨parent, rest, f₂, rfl, rfl,
      Frame.resumes_of_resume hresume, rfl⟩⟩

/-- **What an iteration does.** It leads to another machine as `Iterates` says, or leaves
the only frame that is left. -/
theorem iterate_cases {o? : Option Outcome} (h : iterate ctx m = .ok o? m') :
    (o? = none ∧ Iterates ctx m m') ∨
    (∃ o, o? = some o ∧ m.waiting = [] ∧ Leaves m.top m.state o m'.state) := by
  obtain ⟨top, waiting, s⟩ := m
  rw [iterate, get_bind] at h
  -- the mode of the top frame says what is next
  cases hmode : top.mode with
  | running =>
    simp only [hmode] at h
    obtain ⟨_, m₁, htop, h⟩ := bind_ok_iff.mp h
    obtain ⟨rfl, rfl⟩ := pure_ok_iff.mp h
    obtain ⟨f', s', hstep, rfl⟩ := withTop_ok_iff.mp htop
    exact .inl ⟨rfl, .step hmode (steps_of_step hstep)⟩
  | awaitingCall request =>
    cases request with
    | none =>
      simp only [hmode] at h
      exact .inl (iterates_of_enter (fun _ _ _ hlack => absurd hlack Frame.lackRequest_ne_ok) h)
    | some r =>
      simp only [hmode] at h
      exact .inl (iterates_of_enter (fun _ _ _ => Frame.begins_of_beginCall hmode) h)
  | awaitingCreate request =>
    cases request with
    | none =>
      simp only [hmode] at h
      exact .inl (iterates_of_enter (fun _ _ _ hlack => absurd hlack Frame.lackRequest_ne_ok) h)
    | some r =>
      simp only [hmode] at h
      exact .inl (iterates_of_enter (fun _ _ _ => Frame.begins_of_beginCreate hmode) h)
  | exited exit =>
    simp only [hmode] at h
    obtain ⟨o, hleaves, ⟨rfl, rfl⟩ | ⟨parent, rest, parent', rfl, rfl, hresumes, hm'⟩⟩ :=
      leave_cases h
    · exact .inr ⟨o, rfl, rfl, hleaves⟩
    · rw [hm']
      exact .inl ⟨rfl, .pop hleaves hresumes⟩

/-- An iteration without an outcome leads to another machine. -/
theorem iterates_of_iterate (h : iterate ctx m = .ok none m') : Iterates ctx m m' := by
  rcases iterate_cases h with ⟨-, hiterates⟩ | ⟨o, ho, -⟩
  · exact hiterates
  · cases ho

/-- An iteration with an outcome leaves the only frame. -/
theorem leaves_of_iterate {o : Outcome} (h : iterate ctx m = .ok (some o) m') :
    m.waiting = [] ∧ Leaves m.top m.state o m'.state := by
  rcases iterate_cases h with ⟨ho, -⟩ | ⟨o', ho, hwaiting, hleaves⟩
  · cases ho
  · cases ho
    exact ⟨hwaiting, hleaves⟩

end Machine

/-- The machine that runs the frame that was started, if there is one. -/
def Start.machine? : Start → State → Option Machine
  | .frame entry, s => some { top := entry, state := s }
  | .done _, _ => none

/-- What is known of a machine that was started. -/
theorem Start.eq_of_machine? {start : Start} {s : State} {m : Machine}
    (h : start.machine? s = some m) :
    start = .frame m.top ∧ m.waiting = [] ∧ m.state = s := by
  cases start with
  | frame entry =>
    cases h
    exact ⟨rfl, rfl, rfl⟩
  | done o => cases h

end EvmCore
