import EvmCore.Proofs.Faultless
import EvmCore.Proofs.RegularMachine
import Mathlib

/-!
# Progress

A regular machine can always go on (`Machine.Regular.iterate_succeeds`): a frame that runs takes a
step, a call or a creation that is requested is started, a frame that ended has a layer to close,
and a frame that waits is given an outcome of the kind that it waits for. Since every iteration
keeps the machine regular and every execution ends, an execution from a regular machine ends with an
outcome (`Machine.Regular.execute_ok`).
-/

namespace EvmCore

open Word (InRange)

/-! ### Starting a call -/

namespace View

/-- A new contract keeps the balance of its address. -/
theorem balance_create (v : View) (a b : Address) :
    ((v.create a).get b).balance = (v.get b).balance := by
  change ((v.set a (some { balance := (v.get a).balance })).get b).balance = _
  rw [get_set]
  split
  · next hb =>
    rw [hb]
    rfl
  · rfl

end View

namespace Call

variable {ctx : Context} {c : Call} {s : State}

/-- Asking whether a call is admitted goes through. -/
theorem preamble_succeeds (hs : s.Readable) : Succeeds (c.preamble ctx) s := by
  -- each question is answered by looking at accounts, which can be read
  refine .ite (fun _ => .of_ok rfl) fun _ => ?_
  refine c.isUnfunded_mirrors.reads_bind hs fun s₁ _ hs₁ => .ite (fun _ => .of_ok rfl) fun _ => ?_
  have hvoid : Succeeds (c.isVoid ctx) s₁ :=
    .ite (fun _ => (World.isPresent_mirrors _).reads_bind hs₁ fun _ _ _ => .of_ok rfl) fun _ =>
      .of_ok rfl
  exact .bind hvoid fun _ _ _ => .ite (fun _ => .of_ok rfl) fun _ => .of_ok rfl

/-- A caller that has the value can move it. -/
theorem moveOnView_succeeds {v : View} (hv : v.Solvent) (hfunded : ¬c.UnfundedOn v) :
    Succeeds c.moveOnView v := by
  refine .ite (fun htransfers => ?_) fun _ => .of_ok rfl
  refine .bind_of_ok rfl (.bind_of_ok rfl (.ite (fun hvalue => ?_) fun _ => .of_ok rfl))
  have hsolvent : (v.touch c.address).Solvent := (Conserves.touch v c.address).solvent hv
  -- the recipient is touched first, which changes no balance
  have hbalance : c.value ≤ ((v.touch c.address).get c.caller).balance := by
    rw [View.get_touch]
    exact not_lt.mp fun hlack => hfunded ⟨htransfers, hvalue, hlack⟩
  exact View.transfer_succeeds (v := (v.touch c.address).markTouched c.address) hsolvent
    hvalue.le hbalance

/-- A contract that is built in answers, and then its layer is closed. -/
theorem runPrecompile_succeeds {precompile : Precompile} {base : State}
    (hlayer : Grows base.opened s) (hprecompile : Precompile.Regular precompile)
    (hinput : (c.input.size : Int) < Word.modulus) (hgas : InRange c.gas) :
    Succeeds (c.runPrecompile precompile) s := by
  obtain ⟨output, cost, hanswer, -⟩ := hprecompile.answers hinput hgas
  refine .bind_of_ok (Action.liftExcept_ok_iff.mpr ⟨hanswer, rfl⟩) (.ite (fun _ => ?_) fun _ => ?_)
  · obtain ⟨s', hrevert, -⟩ := hlayer.revert
    exact .bind_of_ok hrevert (.of_ok rfl)
  · obtain ⟨s', hcommit, -⟩ := hlayer.commit
    exact .bind_of_ok hcommit (.of_ok rfl)

/-- Entering a call goes through, if the caller has the value. -/
theorem inLayer_succeeds (hctx : ctx.Regular) (hs : s.Readable) (hview : s.view.Solvent)
    (hfunded : ¬c.UnfundedOn s.view) (hinput : (c.input.size : Int) < Word.modulus)
    (hgas : InRange c.gas) : Succeeds (c.inLayer ctx) s.opened := by
  -- only moving the value could fail; the rest reads, or closes the layer that was just opened
  refine c.moveValue_mirrors.throws_bind hs (moveOnView_succeeds hview hfunded)
    fun _ s₁ hgrows _ hs₁ => ?_
  cases hprecompile : ctx.precompiles[c.codeAddress]? with
  | some precompile =>
    dsimp only
    exact .bind (runPrecompile_succeeds hgrows (hctx.precompiles hprecompile) hinput hgas)
      fun _ _ _ => .of_ok rfl
  | none =>
    dsimp only
    refine (World.code_mirrors _).reads_bind hs₁ fun s₂ hquiet _ =>
      .ite (fun _ => ?_) fun _ => .of_ok rfl
    obtain ⟨s', hcommit, -⟩ := (hgrows.trans hquiet.toGrows).commit
    exact .bind_of_ok hcommit (.of_ok rfl)

/-- **Every call can be started.** -/
theorem start_succeeds (hctx : ctx.Regular) (hs : s.Readable) (hview : s.view.Solvent)
    (hinput : (c.input.size : Int) < Word.modulus) (hgas : InRange c.gas) :
    Succeeds (c.start ctx) s := by
  rw [start_eq]
  refine .bind (preamble_succeeds hs) fun outcome s₀ hpreamble => ?_
  obtain ⟨o, rfl, -⟩ | ⟨rfl, hquiet, hfunded⟩ := preamble_cases hpreamble
  · exact .of_ok rfl
  · have hview₀ : s₀.view.Solvent := hquiet.view_eq ▸ hview
    exact .bind_of_ok (State.checkpoint_eq s₀)
      (inLayer_succeeds hctx (hs.retains hquiet.toRetains) hview₀ hfunded hinput hgas)

end Call

/-! ### Starting a creation -/

namespace Creation

variable {c : Creation} {s : State}

/-- Asking whether a creation is admitted goes through. -/
theorem preamble_succeeds (hs : s.Readable) : Succeeds c.preamble s := by
  refine .ite (fun _ => .of_ok rfl) fun _ => ?_
  refine (World.balance_mirrors _).reads_bind hs fun s₁ _ hs₁ =>
    .ite (fun _ => .of_ok rfl) fun _ => ?_
  refine (World.nonce_mirrors _).reads_bind hs₁ fun s₂ _ hs₂ =>
    .ite (fun _ => .of_ok rfl) fun _ => ?_
  -- the nonce is spent, which is no more than a write
  refine (World.setNonce_mirrors _ _).throws_bind hs₂ (.of_ok rfl) fun _ s₃ _ _ hs₃ => ?_
  refine .bind ((Looks.warmAccount c.address).discard.throws hs₃) fun _ s₄ hwarm => ?_
  have hs₄ := hs₃.retains ((Substate.warmAccount_quiet _).discard hwarm).toRetains
  exact (isTaken_mirrors _).reads_bind hs₄ fun _ _ _ =>
    .ite (fun _ => .of_ok rfl) fun _ => .of_ok rfl

/-- A creator that has the value can move it to the new contract. -/
theorem inLayer_succeeds (hs : s.Readable) (hview : s.view.Solvent)
    (hfunded : c.value ≤ (s.view.get c.creator).balance) : Succeeds c.inLayer s.opened := by
  refine (World.create_mirrors _).throws_bind hs (.of_ok rfl) fun _ s₁ _ hcreated hs₁ => ?_
  refine .ite (fun hvalue => ?_) fun _ => .of_ok rfl
  obtain ⟨-, hcreated⟩ := EStateM.Result.ok.inj hcreated
  -- the balance at the new address is kept, so the creator still has the
  -- value, be it the same account
  have hbalance (a : Address) : (s₁.view.get a).balance = (s.view.get a).balance := by
    rw [← hcreated]
    exact s.view.balance_create c.address a
  have hsolvent : s₁.view.Solvent := View.solvent_of_get fun a => hbalance a ▸ hview.get a
  exact (World.transfer_mirrors _ _ _).throws_bind hs₁
    (View.transfer_succeeds hsolvent hvalue.le (hbalance c.creator ▸ hfunded)) fun _ _ _ _ _ =>
      .of_ok rfl

/-- **Every creation can be started.** -/
theorem start_succeeds (hs : s.Readable) (hview : s.view.Solvent) : Succeeds c.start s := by
  rw [start_eq]
  refine .bind (preamble_succeeds hs) fun outcome s₀ hpreamble => ?_
  obtain ⟨o, rfl, -⟩ | ⟨rfl, hfunded, hgrows, hspent, -⟩ := preamble_cases hpreamble
  · exact .of_ok rfl
  · -- the nonce is no balance
    have hbalance (a : Address) : (s₀.view.get a).balance = (s.view.get a).balance := by
      rw [hspent, spendNonce, View.get_update]
      split
      · next ha => rw [ha]
      · rfl
    have hview₀ : s₀.view.Solvent := View.solvent_of_get fun a => hbalance a ▸ hview.get a
    exact .bind_of_ok (State.checkpoint_eq s₀)
      (inLayer_succeeds (hs.retains hgrows.toRetains) hview₀ (hbalance c.creator ▸ hfunded))

end Creation

/-! ### Beginning, leaving and going on -/

section Lifts

variable {f : Frame} {s : State} {waiting : List Frame} {α β : Type}

/-- What succeeds on a state succeeds for a frame on that state. -/
theorem liftState_succeeds {x : Action α} (hx : Succeeds x s) :
    Succeeds (liftM x : EStateM Fault Activation α) ⟨f, s⟩ := by
  obtain ⟨a, s', hok⟩ := hx.exists_ok
  exact .of_ok (liftState_ok_iff.mpr ⟨s', hok, rfl⟩)

/-- The same with more to follow. -/
theorem liftState_bind_succeeds {x : Action α} {g : α → EStateM Fault Activation β}
    (hx : Succeeds x s) (hg : ∀ a s', x s = .ok a s' → Succeeds (g a) ⟨f, s'⟩) :
    Succeeds ((liftM x : EStateM Fault Activation α) >>= g) ⟨f, s⟩ := by
  refine .bind (liftState_succeeds hx) fun a a' hlifted => ?_
  obtain ⟨s', hok, rfl⟩ := liftState_ok_iff.mp hlifted
  exact hg a s' hok

/-- What succeeds on a frame succeeds for it, whatever the state is. -/
theorem liftFrame_succeeds {x : EStateM Fault Frame α} (hx : Succeeds x f) :
    Succeeds (liftM x : EStateM Fault Activation α) ⟨f, s⟩ := by
  obtain ⟨a, f', hok⟩ := hx.exists_ok
  exact .of_ok (liftFrame_ok_iff.mpr ⟨f', hok, rfl⟩)

/-- And what succeeds for a frame succeeds for the machine that has it on top. -/
theorem Machine.withTop_succeeds {action : EStateM Fault Activation α}
    (h : Succeeds action ⟨f, s⟩) :
    Succeeds (Machine.withTop action) ⟨f, waiting, s⟩ := by
  obtain ⟨a, ⟨f', s'⟩, hok⟩ := h.exists_ok
  exact .of_ok (Machine.withTop_ok_iff.mpr ⟨f', s', hok, rfl⟩)

end Lifts

namespace Frame

variable {ctx : Context} {f : Frame} {s base : State} {o : Outcome}

/-- Beginning a call goes through. -/
theorem beginCall_succeeds {r : CallRequest} (hctx : ctx.Regular) (hs : s.Readable)
    (hview : s.view.Solvent) (hmemory : (f.memory.size : Int) ≤ Gas.maxMemorySize)
    (hgas : InRange r.gas) : Succeeds (beginCall ctx r) ⟨f, s⟩ :=
  .bind_of_ok rfl (.bind_of_ok rfl (liftState_succeeds
    (Call.start_succeeds hctx hs hview (Memory.size_read_lt hmemory _ _) hgas)))

/-- There is an address for a new contract. -/
theorem createAddress_succeeds {self : Address} {r : CreateRequest} (initCode : ByteArray)
    (hr : r.Bounded) (hs : s.Readable) (hnonce : 0 ≤ (s.view.get self).nonce) :
    Succeeds (createAddress self r initCode) s := by
  unfold createAddress
  cases hsalt : r.salt with
  -- a salt that is a word has bytes
  | some salt =>
    obtain ⟨bytes, hbytes⟩ := Bytes.ofWord?_of_inRange (hr.salt salt hsalt)
    have haddress : Creation.saltedAddress self salt initCode =
        .ok (Address.createSalted self bytes initCode) := by
      rw [Creation.saltedAddress, hbytes]
    exact .of_ok (Action.liftExcept_ok_iff.mpr ⟨haddress, rfl⟩)
  | none =>
    refine (World.nonce_mirrors self).reads_bind hs fun s' _ _ => ?_
    -- an address is refused for a negative nonce only
    exact .of_ok (Action.liftExcept_ok_iff.mpr ⟨if_neg (not_lt.mpr hnonce), rfl⟩)

/-- Beginning a creation goes through. -/
theorem beginCreate_succeeds {r : CreateRequest} (hr : r.Bounded) (hs : s.Readable)
    (hview : s.view.Regular) : Succeeds (beginCreate r) ⟨f, s⟩ := by
  refine .bind_of_ok rfl (.bind_of_ok rfl (liftState_bind_succeeds
    (createAddress_succeeds _ hr hs (hview.accounts _).nonce) fun address s₀ haddress => ?_))
  have hquiet := createAddress_quiet _ _ _ haddress
  exact liftState_succeeds
    (Creation.start_succeeds (hs.retains hquiet.toRetains) (hquiet.view_eq ▸ hview.solvent))

/-- Deploying the output, or finding that it cannot be deployed, goes through. -/
theorem deploy_succeeds (hs : s.Readable) : Succeeds deploy ⟨f, s⟩ := by
  refine .bind_of_ok rfl ?_
  dsimp only
  cases deployFailure? f.output f.gas with
  | some failure => exact .of_ok rfl
  | none =>
    exact .bind_of_ok rfl
      (liftState_succeeds ((World.setCode_mirrors _ _).succeeds hs (.of_ok rfl)))

/-- A frame that ended closes its layer. -/
theorem close_succeeds {exit : Exit} {f₀ : Frame} (hlayer : Grows base.opened s)
    (hmode : f.mode = .exited exit) : Succeeds f.close ⟨f₀, s⟩ := by
  obtain ⟨s₁, hcommit, -⟩ := hlayer.commit
  obtain ⟨s₂, hrevert, -⟩ := hlayer.revert
  unfold close
  rw [hmode]
  -- each way to end has a layer to close, and reports it
  cases exit with
  | halted =>
    exact liftState_bind_succeeds (.of_ok hcommit) fun _ _ _ => liftState_bind_succeeds (.of_ok rfl)
      fun _ _ _ => .ite (fun _ => .of_ok rfl) fun _ => .of_ok rfl
  | reverted =>
    exact liftState_bind_succeeds (.of_ok hrevert) fun _ _ _ => liftState_bind_succeeds (.of_ok rfl)
      fun _ _ _ => .of_ok rfl
  | failed failure =>
    exact liftState_bind_succeeds (.of_ok hrevert) fun _ _ _ => liftState_bind_succeeds (.of_ok rfl)
      fun _ _ _ => .of_ok rfl

/-- **A frame that ended can be left.** -/
theorem leave_succeeds {exit : Exit} (hs : s.Readable) (hlayer : Grows base.opened s)
    (hmode : f.mode = .exited exit) : Succeeds leave ⟨f, s⟩ := by
  -- deploying is work within the layer, so there is still the same layer to close
  by_cases hdeploys : f.message.isInit = true ∧ f.mode = .exited .halted
  · refine .congr (leave_of_deploys hdeploys.1 hdeploys.2) (.bind (deploy_succeeds hs)
      fun _ a hdeploy => ?_)
    obtain ⟨e, -, rfl⟩ | ⟨-, s₀, hgrows, -, rfl⟩ := deploy_ok hdeploy
    · exact .bind_of_ok rfl (close_succeeds hlayer rfl)
    · exact .bind_of_ok rfl (close_succeeds (hlayer.trans hgrows) hmode)
  · exact .congr (leave_of_not_deploys hdeploys) (close_succeeds hlayer hmode)

/-- Whether an outcome is one that a frame can go on with. -/
def Answered (f : Frame) (o : Outcome) : Prop :=
  match f.mode with
  | .awaitingCall _ => True
  | .awaitingCreate _ => ∃ w, o.createdWord = .ok w
  | .running | .exited _ => False

/-- The output goes to the memory that the call asked for. -/
theorem copyOutput_succeeds {r : CallRequest} (hr : r.Bounded f.memory.size) (output : ByteArray) :
    Succeeds (r.copyOutput output) f := by
  have hmin : 0 ≤ min r.returnSize (output.size : Int) :=
    le_min hr.returnSize (Int.natCast_nonneg _)
  have hsize : ((Bytes.slice output 0 (min r.returnSize output.size)).size : Int) ≤
      r.returnSize := by
    have hle := Bytes.size_slice_le_of_nonneg output 0 hmin
    rw [zero_add] at hle
    exact hle.trans (min_le_left _ _)
  have hcheck : f.memory.checkWrite r.returnOffset
      (Bytes.slice output 0 (min r.returnSize output.size)).size = .ok () := by
    refine Memory.checkWrite_ok_iff.mpr ?_
    -- memory was grown to hold what was asked for, and no more than that comes back
    rcases hr.holds with hzero | hholds
    · left
      omega
    · right
      omega
  refine .bind_of_ok rfl ?_
  rw [Memory.write_ok_iff.mpr ⟨hcheck, rfl⟩]
  exact .of_ok rfl

/-- **A frame that waits goes on**, given an outcome of the right kind. -/
theorem resume_succeeds (hf : f.Bounded) (ho : f.Answered o) : Succeeds (resume o) f := by
  unfold Answered at ho
  refine .bind_of_ok rfl ?_
  cases hmode : f.mode with
  | awaitingCall request =>
    have hrequest := hf.mode
    rw [hmode] at hrequest
    obtain ⟨r, rfl, hr⟩ := hrequest
    refine .bind_of_ok rfl (.ite (fun _ => ?_) fun _ => .of_ok rfl)
    refine .bind_of_ok rfl (.bind (copyOutput_succeeds ?_ o.output) fun _ _ _ => .of_ok rfl)
    exact hr
  | awaitingCreate request =>
    rw [hmode] at ho
    obtain ⟨w, hw⟩ := ho
    refine .bind_of_ok rfl ?_
    rw [hw]
    exact .of_ok rfl
  | running | exited =>
    rw [hmode] at ho
    exact ho.elim

end Frame

/-- What comes to nothing at once answers the frame that asked for it. -/
theorem Begins.answered {ctx : Context} {f f' : Frame} {s s' : State} {o : Outcome}
    (h : Begins ctx f s f' (.done o) s') : f'.Answered o := by
  unfold Frame.Answered
  rw [h.mode_eq]
  cases h with
  | call hmode _ =>
    rw [hmode]
    trivial
  | create hmode _ _ hstarts =>
    rw [hmode]
    cases hstarts with
    | _ => exact ⟨0, rfl⟩

/-- Only init code ends with a new contract, and it is init code that a frame
that creates waits for. -/
theorem Leaves.answered {f parent : Frame} {s s' : State} {o : Outcome} (h : Leaves f s o s')
    (hserves : f.Serves parent) : parent.Answered o := by
  unfold Frame.Serves at hserves
  unfold Frame.Answered
  cases hmode : parent.mode with
  | awaitingCall request => trivial
  | awaitingCreate request =>
    rw [hmode] at hserves
    cases h with
    | halted _ hinit => exact absurd hserves (Bool.eq_false_iff.mp hinit)
    | deployed => exact ⟨_, rfl⟩
    | undeployable | reverted | failed => exact ⟨0, rfl⟩
  | running | exited =>
    rw [hmode] at hserves
    exact hserves

/-! ### Iterations -/

namespace Machine

variable {ctx : Context} {m : Machine}

/-- Going on after starting a call or a creation. -/
theorem enter_succeeds {f f' : Frame} {waiting : List Frame} {s s' : State} {start : Start}
    (hbegins : Begins ctx f s f' start s') (hf : f.Bounded) :
    Succeeds (enter start) ⟨f', waiting, s'⟩ := by
  cases start with
  | frame child => exact .of_ok rfl
  | done o =>
    exact withTop_succeeds
      (liftFrame_succeeds (Frame.resume_succeeds (hbegins.bounded hf) hbegins.answered))

namespace Regular

/-- The frame on top can be left, and the one below goes on. -/
theorem leave_succeeds {exit : Exit} (hm : m.Regular) (hmode : m.top.mode = .exited exit) :
    Succeeds leave m := by
  obtain ⟨top, waiting, s⟩ := m
  obtain ⟨base, hlayer⟩ := hm.layer
  refine .bind (withTop_succeeds (Frame.leave_succeeds hm.readable hlayer hmode))
    fun o m₁ htop => ?_
  obtain ⟨f', s', hleave, rfl⟩ := withTop_ok_iff.mp htop
  have hleaves := Frame.leaves_of_leave hleave
  refine .bind_of_ok rfl ?_
  cases waiting with
  | nil => exact .of_ok rfl
  | cons parent rest =>
    have hparent : parent.Bounded := hm.waiting parent List.mem_cons_self
    -- what ended is of the kind that the parent waits for
    have hserves : top.Serves parent := by
      cases hm.serves with
      | cons_cons hserves _ => exact hserves
    exact .bind_of_ok rfl (.bind (withTop_succeeds (liftFrame_succeeds
      (Frame.resume_succeeds hparent (hleaves.answered hserves)))) fun _ _ _ => .of_ok rfl)

/-- **A regular machine can go on.** -/
theorem iterate_succeeds (hctx : ctx.Regular) (hm : m.Regular) : Succeeds (iterate ctx) m := by
  have hrequest := hm.top.mode
  have hpending := hm.inRange_pendingGas
  refine .bind_of_ok rfl ?_
  -- each mode has its own kind of iteration
  cases hmode : m.top.mode with
  | running =>
    have hpc := (hm.nonNegative.top (Frame.active_of_running hmode)).pc
    exact .bind (withTop_succeeds (step_succeeds hm.top hpc hmode hm.view hm.readable)) fun _ _ _ =>
      .of_ok rfl
  | awaitingCall request =>
    rw [hmode] at hrequest
    obtain ⟨r, rfl, -⟩ := hrequest
    rw [Frame.pendingGas, hmode] at hpending
    refine .bind (withTop_succeeds
      (Frame.beginCall_succeeds hctx hm.readable hm.view.solvent hm.top.memory hpending))
        fun start m₁ htop => ?_
    obtain ⟨f', s', hbegin, rfl⟩ := withTop_ok_iff.mp htop
    exact .bind (enter_succeeds (Frame.begins_of_beginCall hmode hbegin) hm.top) fun _ _ _ =>
      .of_ok rfl
  | awaitingCreate request =>
    rw [hmode] at hrequest
    obtain ⟨r, rfl, hr⟩ := hrequest
    refine .bind (withTop_succeeds (Frame.beginCreate_succeeds hr hm.readable hm.view))
      fun start m₁ htop => ?_
    obtain ⟨f', s', hbegin, rfl⟩ := withTop_ok_iff.mp htop
    have hbegins : Begins ctx m.top m.state f' start s' := Frame.begins_of_beginCreate hmode hbegin
    exact .bind (enter_succeeds hbegins hm.top) fun _ _ _ => .of_ok rfl
  | exited exit => exact hm.leave_succeeds hmode

/-! ### Executions -/

/-- Leaving the last frame closes the last layer. -/
theorem last (hm : m.Regular) {o : Outcome} {m' : Machine} (h : iterate ctx m = .ok (some o) m') :
    m'.state.view.Regular ∧ m'.state.Readable := by
  obtain ⟨hwaiting, hleaves⟩ := leaves_of_iterate h
  obtain ⟨c, hc, hreadable, hnested⟩ := hm.nested
  have hmoves := hnested.moves (congrArg List.length hwaiting)
  have hleft := hleaves.moves (View.Regular.respects (fun _ => hm.top.stack) _) hmoves
  exact ⟨hleft.respects hc, State.Readable.retains hreadable hleft.toRetains⟩

/-- Every run from a regular machine ends with an outcome, since no iteration of it faults. -/
theorem endsIn_ok {n : Nat} {r : EStateM.Result Fault Machine Outcome} (hctx : ctx.Regular)
    (hm : m.Regular) (h : EndsIn ctx n m r) :
    ∃ o m', r = .ok o m' ∧ m'.state.view.Regular ∧ m'.state.Readable := by
  -- by induction on the run
  induction h with
  | outcome hiterate => exact ⟨_, _, rfl, hm.last hiterate⟩
  | fault hiterate => exact (hm.iterate_succeeds hctx hiterate).elim
  | next hiterate _ ih => exact ih ((iterates_of_iterate hiterate).regular hctx hm)

/-- The bound on the iterations of an execution leaves room for all that its gas pays for. -/
theorem start_measure_le (s : State) {entry : Frame} (hmode : entry.mode = .running) :
    (start entry s).measure ≤ iterationBound entry.gas := by
  have hallowance : 2 ≤ iterationAllowance := by decide
  rw [measure, start_totalGas, Frame.pendingGas_of_running hmode, Int.add_zero, iterationBound]
  change 4 * entry.gas.toNat + entry.mode.weight + 2 * 0 ≤ _
  rw [hmode]
  exact Nat.add_le_add_left hallowance _

/-- **An execution from a regular machine ends with an outcome.** -/
theorem execute_ok {entry : Frame} {s : State} (hctx : ctx.Regular) (hm : (start entry s).Regular)
    (hmode : entry.mode = .running) : ∃ o m', execute ctx entry s = .ok o m' ∧
      o.Within entry.gas ∧ m'.state.view.Regular ∧ m'.state.Readable := by
  -- gas bounds how many iterations there are, and none of them can be the one that faults
  obtain ⟨n, r, hn, hends, hleft⟩ := hm.nonNegative.endsIn hctx.nonNegative
  obtain ⟨o, m', rfl, hview, hreadable⟩ := hm.endsIn_ok hctx hends
  obtain ⟨hnonneg, hle⟩ := hleft o m' rfl
  rw [start_totalGas, Frame.pendingGas_of_running hmode, Int.add_zero] at hle
  have hexecute := run_of_endsIn hends (hn.trans (start_measure_le s hmode))
  exact ⟨o, m', hexecute, ⟨hnonneg, hle⟩, hview, hreadable⟩

end Regular

end Machine

end EvmCore
