import EvmCore.Proofs.Atomicity
import EvmCore.Proofs.Locality
import Mathlib

/-!
# Accounts that a transaction never loads make no difference to it

A transaction is applied to a source, and then to another one that holds the same accounts
wherever the first run has loaded one. The second run loads the same addresses, gives the
same receipt or comes to the same fault, and writes and deletes the same accounts in the same
order (`Transaction.unloaded_accounts_make_no_difference`). What the two sources hold
anywhere else can differ in any way.

Up to the write-back this is locality (`Local`), which `Locality` shows for the steps of a frame.
Here it goes on through the frames and the machine. A frame that waits or has ended is looked at
before anything is done, and the look is the same for both sources (`Local.of_eq_at`). A run of the
machine is as local as its iterations are, by induction on their number.

The write-back changes the source, so it is not local. It takes what it writes from the cache alone,
and a source that refuses nothing takes all of it. `Reproducible` is what is left of locality then:
both runs end alike, in the same state but for the source, and add the same changes to what their
sources were told before.
-/

namespace EvmCore

open Stateful (state withSource)

/-- A run is one iteration, and the rest of the run unless that was the last. -/
theorem Machine.run_succ (ctx : Context) (n : Nat) :
    run ctx (n + 1) = iterate ctx >>= fun outcome? => outcome?.elim (run ctx n) pure := by
  funext m
  change run ctx (n + 1) m = EStateM.bind _ _ m
  rw [run, EStateM.bind]
  cases iterate ctx m with
  | error e m' => rfl
  | ok outcome? m' =>
    cases outcome? with
    | some outcome => rfl
    | none => rfl

namespace Local

/-- What is the same as something local, though not the same thing in every state. -/
theorem of_eq_at {ε σ α : Type} [Stateful σ] {source : Source} {x : EStateM ε σ α}
    (h : ∀ s, ∃ y, Local source y ∧ x s = y s ∧ x (withSource s source) = y (withSource s source)) :
    Local source x := by
  intro s
  obtain ⟨y, hy, hsame, hsame'⟩ := h s
  rw [hsame, hsame']
  exact hy s

/-! ### Calls and creations -/

section Starts

variable {source : Source}

/-- A contract that is built into the machine sees nothing but its input and its gas. -/
theorem runPrecompile (c : Call) (precompile : Precompile) :
    Local source (c.runPrecompile precompile) := by
  refine (liftExcept _).bind fun result => ?_
  dsimp only
  split
  · exact revert.bind fun _ => pure _
  · exact commit.bind fun _ => pure _

/-- What stands before the checkpoint of a call asks for a balance, or whether
there is an account. -/
theorem call_preamble (ctx : Context) (c : Call) : Local source (c.preamble ctx) := by
  have hunfunded : Local source c.isUnfunded := ite ((balance _).bind fun _ => pure _) (pure _)
  have hvoid : Local source (c.isVoid ctx) := ite ((isPresent _).bind fun _ => pure _) (pure _)
  refine ite ((emit _).bind fun _ => pure _) ?_
  refine hunfunded.bind fun _ => ite ((emit _).bind fun _ => pure _) ?_
  exact hvoid.bind fun _ => ite (pure _) (pure _)

/-- What follows the checkpoint of a call. -/
theorem call_inLayer (ctx : Context) (c : Call) : Local source (c.inLayer ctx) := by
  have hmove : Local source c.moveValue :=
    ite ((touch _).bind fun _ => (markTouched _).bind fun _ => ite (transfer _ _ _) (pure _))
      (pure _)
  refine hmove.bind fun _ => ?_
  -- the contracts that are built in are a matter of the context, not of the source
  cases ctx.precompiles[c.codeAddress]? with
  | some precompile => exact (runPrecompile c precompile).bind fun _ => pure _
  | none =>
    refine (code _).bind fun _ => ite (commit.bind fun _ => pure _) ?_
    exact (emit _).bind fun _ => pure _

/-- **Starting a call.** -/
theorem call_start (ctx : Context) (c : Call) : Local source (c.start ctx) := by
  rw [Call.start_eq]
  refine (call_preamble ctx c).bind fun outcome? => ?_
  cases outcome? with
  | some outcome => exact pure _
  | none => exact checkpoint.bind fun _ => call_inLayer ctx c

/-- Whether an address is taken is asked of its account, part by part. -/
theorem isTaken (a : Address) : Local source (Creation.isTaken a) := by
  refine (nonce a).bind fun _ => ite (pure _) ?_
  exact (code a).bind fun _ => ite (pure _) (hasStorage a)

/-- What stands before the checkpoint of a creation, where the nonce is spent. -/
theorem creation_preamble (c : Creation) : Local source c.preamble := by
  refine ite (pure _) ((balance _).bind fun _ => ?_)
  refine ite (pure _) ((nonce _).bind fun _ => ?_)
  refine ite (pure _) ((setNonce _ _).bind fun _ => (warmAccount _).discard.bind fun _ => ?_)
  exact (isTaken _).bind fun _ => ite ((emit _).bind fun _ => pure _) (pure _)

/-- What follows the checkpoint of a creation. -/
theorem creation_inLayer (c : Creation) : Local source c.inLayer := by
  have henter : Local source (do
      State.emit (.createEntered c.depth c.address c.gas)
      return .frame c.frame : Action Start) := (emit _).bind fun _ => pure _
  exact (create _).bind fun _ => ite ((transfer _ _ _).bind fun _ => henter) henter

/-- **Starting a creation.** -/
theorem creation_start (c : Creation) : Local source c.start := by
  rw [Creation.start_eq]
  refine (creation_preamble c).bind fun outcome? => ?_
  cases outcome? with
  | some outcome => exact pure _
  | none => exact checkpoint.bind fun _ => creation_inLayer c

end Starts

/-! ### Frames -/

section Frames

variable {α : Type} {source : Source}

theorem liftState {x : Action α} (h : Local source x) :
    Local source (liftM x : EStateM Fault Activation α) := by
  refine h.of_part (g := id) ?_
  rintro ⟨f, s⟩
  exact ⟨s, Activation.mk f, rfl, fun _ => ⟨rfl, rfl⟩, liftState_apply .., liftState_apply ..⟩

/-- What is done to the frame alone is local, whatever it is: there is no source in a frame. -/
theorem liftFrame (x : EStateM Fault Frame α) :
    Local source (liftM x : EStateM Fault Activation α) := by
  rintro ⟨f, s⟩
  have hother : (liftM x : EStateM Fault Activation α) (withSource ⟨f, s⟩ source) =
      mapResult id (Activation.mk · (withSource s source)) (x f) := liftFrame_apply ..
  rw [hother, liftFrame_apply]
  cases x f with
  | ok r f' => exact ⟨.refl s, fun _ => rfl⟩
  | error e f' => exact ⟨.refl s, fun _ => rfl⟩

theorem beginCall (ctx : Context) (r : CallRequest) : Local source (Frame.beginCall ctx r) := by
  unfold Frame.beginCall
  -- the call is read off the frame, after its return data were dropped
  exact bind (modify (.of_state_eq (fun _ => rfl) fun _ => rfl)) fun _ =>
    get_bind (fun _ => liftState (call_start ctx _)) fun _ => rfl

/-- Finding the address of a contract. -/
theorem createAddress (self : Address) (r : CreateRequest) (initCode : ByteArray) :
    Local source (Frame.createAddress self r initCode) := by
  rw [Frame.createAddress]
  cases r.salt with
  | some salt => exact liftExcept _
  | none =>
    -- without a salt the address depends on the nonce of who creates
    exact (nonce self).bind fun _ => liftExcept _

theorem beginCreate (r : CreateRequest) : Local source (Frame.beginCreate r) := by
  unfold Frame.beginCreate
  refine get_bind (fun a => ?_) fun _ => rfl
  dsimp only
  exact bind (modify (.of_state_eq (fun _ => rfl) fun _ => rfl)) fun _ =>
    (liftState (createAddress _ _ _)).bind fun _ => liftState (creation_start _)

/-- Beginning whatever a frame waits for. -/
theorem begin (ctx : Context) (f : Frame) : Local source (f.begin ctx) := by
  rw [Frame.begin]
  split
  · exact beginCall ctx _
  · exact beginCreate _
  · -- a frame that waits for nothing it has requested
    unfold Frame.lackRequest
    exact bind (modify (.of_state_eq (fun _ => rfl) fun _ => rfl)) fun _ => throw _

/-- Deploying the output of init code. -/
theorem deploy : Local source Frame.deploy := by
  unfold Frame.deploy
  refine get_bind (fun a => ?_) fun _ => rfl
  dsimp only
  -- whether it can be deployed depends on its bytes and on the gas
  cases deployFailure? a.frame.output a.frame.gas with
  | some failure => exact modify (.of_state_eq (fun _ => rfl) fun _ => rfl)
  | none =>
    have hcode : Local source (World.setCode a.frame.message.self a.frame.output) := update _ _
    exact bind (modify (.of_state_eq (fun _ => rfl) fun _ => rfl)) fun _ => liftState hcode

/-- Closing a frame that ended. -/
theorem close (f : Frame) : Local source f.close := by
  -- a frame that has not ended is reverted before that is reported
  have hactive (mode : Mode) : Local source (liftM State.revert >>= fun _ =>
      MonadExcept.throw (Fault.exitWhileActive mode.name) : EStateM Fault Activation Outcome) :=
    (liftState revert).bind fun _ => throw _
  rw [Frame.close]
  cases f.mode with
  | exited exit =>
    cases exit with
    | halted =>
      exact (liftState commit).bind fun _ => (liftState (emit _)).bind fun _ =>
        ite (pure _) (pure _)
    | reverted => exact (liftState revert).bind fun _ => (liftState (emit _)).bind fun _ => pure _
    | failed e =>
      exact (liftState revert).bind fun _ => (liftState (emit _)).bind fun _ =>
        bind (modify (.of_state_eq (fun _ => rfl) fun _ => rfl)) fun _ => pure _
  | running => exact hactive .running
  | awaitingCall request => exact hactive (.awaitingCall request)
  | awaitingCreate request => exact hactive (.awaitingCreate request)

/-- Leaving a frame. -/
theorem leave : Local source Frame.leave := by
  refine of_eq_at ?_
  rintro ⟨f, s⟩
  -- whether there is something to deploy is written in the frame
  by_cases hdeploys : f.message.isInit = true ∧ f.mode = .exited .halted
  · refine ⟨_, deploy.bind fun _ => get_bind (fun a => close a.frame) fun _ => rfl, ?_, ?_⟩
    · exact Frame.leave_of_deploys hdeploys.1 hdeploys.2
    · exact Frame.leave_of_deploys hdeploys.1 hdeploys.2
  · exact ⟨_, close f, Frame.leave_of_not_deploys hdeploys, Frame.leave_of_not_deploys hdeploys⟩

end Frames

/-! ### The machine -/

section Machines

variable {α : Type} {source : Source}

/-- What the frame on top does, as a part of the machine. -/
theorem withTop {x : EStateM Fault Activation α} (h : Local source x) :
    Local source (Machine.withTop x) := by
  refine h.of_part (g := id) ?_
  rintro ⟨top, waiting, s⟩
  have happly (s : State) : Machine.withTop x ⟨top, waiting, s⟩ =
      mapResult id (fun a => ⟨a.frame, waiting, a.state⟩) (x ⟨top, s⟩) := by
    rw [Machine.withTop]
    cases x ⟨top, s⟩ with
    | ok r a => rfl
    | error e a => rfl
  exact ⟨⟨top, s⟩, _, rfl, fun _ => ⟨rfl, rfl⟩, happly s, happly (withSource s source)⟩

theorem enter (start : Start) : Local source (Machine.enter start) := by
  cases start with
  | frame child => exact modify (.of_state_eq (fun _ => rfl) fun _ => rfl)
  | done outcome => exact withTop (liftFrame (Frame.resume outcome))

/-- Leaving the frame on top, and going on with the one below. -/
theorem machine_leave : Local source Machine.leave := by
  refine (withTop leave).bind fun outcome => get_bind (fun m => ?_) fun _ => rfl
  -- whether a frame is left below decides if the execution goes on
  cases m.waiting with
  | nil => exact pure _
  | cons parent rest =>
    exact bind (modify (.of_state_eq (fun _ => rfl) fun _ => rfl)) fun _ =>
      (withTop (liftFrame (Frame.resume outcome))).bind fun _ => pure _

/-- **An iteration**: which of them it is depends on the frame on top. -/
theorem iterate (ctx : Context) : Local source (Machine.iterate ctx) := by
  refine of_eq_at fun m => ?_
  by_cases hactive : m.top.Active
  · by_cases hmode : m.top.mode = .running
    · exact ⟨_, (withTop (step ctx)).bind fun _ => pure none, Machine.iterate_of_running hmode,
        Machine.iterate_of_running hmode⟩
    · exact ⟨_, (withTop (begin ctx m.top)).bind fun start => (enter start).bind fun _ => pure none,
        Machine.iterate_of_waits hactive hmode, Machine.iterate_of_waits hactive hmode⟩
  · obtain ⟨exit, hexit⟩ := Frame.exited_of_not_active hactive
    exact ⟨_, machine_leave, Machine.iterate_of_exited hexit, Machine.iterate_of_exited hexit⟩

/-- **A run of the machine**, as long as it is. -/
theorem machine_run (ctx : Context) (n : Nat) : Local source (Machine.run ctx n) := by
  -- by induction on the bound, with one iteration at the front
  induction n with
  | zero => exact throw _
  | succ n ih =>
    rw [Machine.run_succ]
    refine (iterate ctx).bind fun outcome? => ?_
    cases outcome? with
    | some outcome => exact pure _
    | none => exact ih

/-- What was started runs on a machine of its own, on the state that it was started in. -/
theorem finish (ctx : Context) (start : Start) : Local source (start.finish ctx) := by
  cases start with
  | done outcome => exact pure _
  | frame entry =>
    -- the bound on the iterations is never to be evaluated
    generalize hbound : iterationBound entry.gas = k
    refine (machine_run ctx k).of_part (g := id) fun s => ?_
    have happly (s : State) : (Start.frame entry).finish ctx s =
        mapResult id Machine.state (Machine.run ctx k { top := entry, state := s }) := by
      rw [Start.finish]
      beta_reduce
      rw [execute, hbound]
      cases Machine.run ctx k { top := entry, state := s } with
      | ok o m => rfl
      | error e m => rfl
    exact ⟨{ top := entry, state := s }, _, rfl, fun _ => ⟨rfl, rfl⟩, happly s,
      happly (withSource s source)⟩

end Machines

/-! ### Transactions, up to the write-back -/

section Transactions

variable {source : Source}

theorem require (condition : Bool) (reason : Rejection) :
    Local source (Transaction.require condition reason) :=
  ite (pure _) (throw _)

/-- The checks on the terms of a transaction ask for a nonce and for a balance. -/
theorem checkTerms (tx : Transaction) (block : Block) : Local source (tx.checkTerms block) := by
  refine (require _ _).bind fun _ => (require _ _).bind fun _ => (require _ _).bind fun _ =>
    (require _ _).bind fun _ => ?_
  refine (nonce _).bind fun _ => (require _ _).bind fun _ => (require _ _).bind fun _ => ?_
  exact (balance _).bind fun _ => require _ _

theorem validate (tx : Transaction) (block : Block) : Local source (tx.validate block) := by
  rw [Transaction.validate_eq]
  cases tx.chainId with
  | none => exact checkTerms tx block
  | some chainId => exact (require _ _).bind fun _ => checkTerms tx block

/-- Warming loads nothing: what is announced is not asked for yet. -/
theorem warmUp (tx : Transaction) (ctx : Context) : Local source (tx.warmUp ctx) := by
  refine (warmAccount _).discard.bind fun _ => ?_
  refine (forM fun a => (warmAccount a).discard).bind fun _ => ?_
  refine forM fun entry => (warmAccount _).discard.bind fun _ => ?_
  exact forM fun key => (warmSlot _).discard

/-- Starting a transaction, which is a creation or a call. -/
theorem start (tx : Transaction) (ctx : Context) : Local source (tx.start ctx) := by
  rw [Transaction.start]
  cases tx.recipient with
  | none =>
    exact (liftExcept _).bind fun _ => (warmAccount _).discard.bind fun _ => creation_start _
  | some recipient =>
    have hspend : Local source (World.incrementNonce tx.sender) :=
      (nonce _).bind fun _ => setNonce _ _
    exact hspend.bind fun _ => (warmAccount _).discard.bind fun _ => call_start ctx _

/-- Removing the accounts that are to be deleted. -/
theorem removeAccounts : Local source Transaction.removeAccounts := by
  have hprune (a : Address) : Local source (Transaction.prune a) :=
    (isPresent a).bind fun _ => ite ((isEmpty a).bind fun _ => ite (delete a) (pure _)) (pure _)
  -- which accounts these are is listed in the substate
  refine get_bind (fun _ => ?_) fun _ => rfl
  refine (forM delete).bind fun _ => get_bind (fun _ => ?_) fun _ => rfl
  exact (forM hprune).bind fun _ => pure _

end Transactions

end Local

/-! ### Writing back -/

namespace World

/-- The state after a flush of a source that refuses nothing. -/
def flushed (s : State) : State :=
  { s with
    world := { s.world with source := s.world.flushedSource, dirty := ∅ }
    events := s.events.push (.flushed s.world.dirty.size) }

/-- A source that refuses nothing takes all that is written back. -/
theorem flush_eq_flushed {s : State} (h : s.world.source.NeverFails) :
    flush s = .ok () (flushed s) := by
  rw [flush, get_bind]
  exact (bind_of_ok (writeBack_of_neverFails _ h)).trans rfl

/-- What is written comes from the cache, which is the same for both sources. -/
theorem flushed_withSource (s : State) (source : Source) : flushed (withSource s source) =
    withSource (flushed s) (source.appliedAll s.world.cached s.world.dirty.toList) := rfl

end World

/-- A run on another source ended as the run on the source of `s` did, in the same state but for the
source, and both sources were told the same changes. -/
def Reproduces {α : Type} (s : State) (source : Source) (r r' : EStateM.Result Fault State α) :
    Prop :=
  ∃ after issued, r' = mapResult id (World.withSource · after) r ∧
    (ended r).world.source.changes.toList = s.world.source.changes.toList ++ issued ∧
    after.changes.toList = source.changes.toList ++ issued

/-- If neither source refuses anything and they agree on what is loaded in the end, then a run on
the other one ends alike. -/
def Reproducible {α : Type} (source : Source) (x : Action α) : Prop :=
  ∀ s, s.world.source.NeverFails → source.NeverFails →
    (∀ a, s.world.Loaded a → (ended (x s)).world.Loaded a) ∧
    ((∀ a, (ended (x s)).world.Loaded a → source.accounts[a]? = s.world.source.accounts[a]?) →
      Reproduces s source (x s) (x (World.withSource s source)))

/-- What agrees in the end, where neither source refuses anything. -/
theorem State.Extends.agrees {s s₁ : State} {source : Source} (h : s.Extends s₁)
    (hnever : s.world.source.NeverFails) (hnever' : source.NeverFails)
    (hagree : ∀ a, s₁.world.Loaded a → source.accounts[a]? = s.world.source.accounts[a]?) :
    s₁.Agrees source where
  readable := h.source ▸ hnever.readable
  otherReadable := hnever'.readable
  accounts a ha := h.source ▸ hagree a ha

namespace Reproducible

variable {α β : Type} {source : Source} {x : Action α}

/-- Before what is reproducible there can be anything that is local. -/
theorem after_local {f : α → Action β} (hx : Local source x) (hf : ∀ a, Reproducible source (f a)) :
    Reproducible source (x >>= f) := by
  intro s hnever hnever'
  cases h : x s with
  -- the two runs come to the same fault
  | error e s₁ =>
    -- nothing comes after the fault, and nothing was written before it
    have hbind : (x >>= f) s = .error e s₁ := bind_error_iff.mpr (.inl h)
    obtain ⟨hextends, hsame⟩ := hx.error h
    rw [hbind]
    refine ⟨hextends.loaded, fun hagree => ⟨source, [], ?_, ?_, (List.append_nil _).symm⟩⟩
    · exact bind_error_iff.mpr (.inl (hsame (hextends.agrees hnever hnever' hagree)))
    · rw [List.append_nil]
      exact congrArg (·.changes.toList) hextends.source
  | ok a s₁ =>
    obtain ⟨hextends, hsame⟩ := hx.ok h
    have hsource : s₁.world.source = s.world.source := hextends.source
    obtain ⟨hloaded, hsame'⟩ := hf a s₁ (hsource ▸ hnever) hnever'
    rw [bind_of_ok h]
    refine ⟨fun b hb => hloaded b (hextends.loaded b hb), fun hagree => ?_⟩
    -- what the first part has loaded is still loaded in the end
    have hagrees : s₁.Agrees source :=
      hextends.agrees hnever hnever' fun b hb => hagree b (hloaded b hb)
    have hother : (x >>= f) (World.withSource s source) = f a (World.withSource s₁ source) :=
      bind_of_ok (hsame hagrees)
    rw [← hsource] at hagree
    obtain ⟨after, issued, hresult, hchanges, hafter⟩ := hsame' hagree
    refine ⟨after, issued, hother.trans hresult, ?_, hafter⟩
    rw [hchanges, hsource]

/-- A look at the state that is the same for both sources. -/
theorem after_get {f : State → Action α} (hf : ∀ s, Reproducible source (f s))
    (hsource : ∀ s, f (World.withSource s source) = f s) : Reproducible source (get >>= f) := by
  intro s hnever hnever'
  obtain ⟨hloaded, hsame⟩ := hf s s hnever hnever'
  refine ⟨hloaded, fun hagree => ?_⟩
  change Reproduces s source (f s s) (f (World.withSource s source) (World.withSource s source))
  rw [hsource s]
  exact hsame hagree

/-- **The write-back** and what is reported after it. -/
theorem flush_bind (e : Event) {g : State → α}
    (hg : ∀ s source, g (World.withSource s source) = g s) :
    Reproducible source (do
      World.flush
      State.emit e
      return g (← get) : Action α) := by
  intro s hnever hnever'
  have hother : (World.withSource s source).world.source.NeverFails := hnever'
  rw [bind_of_ok (World.flush_eq_flushed hnever), bind_of_ok (World.flush_eq_flushed hother),
    World.flushed_withSource]
  refine ⟨fun _ ha => ha, fun _ => ⟨source.appliedAll s.world.cached s.world.dirty.toList,
    s.world.dirty.toList.map fun a => Source.change a (s.world.cached a), ?_, ?_, ?_⟩⟩
  · -- the value is taken from a state with another source
    exact congrArg (EStateM.Result.ok · _)
      (hg { World.flushed s with events := (World.flushed s).events.push e } _)
  · exact s.world.source.appliedAll_changes s.world.cached s.world.dirty.toList
  · exact source.appliedAll_changes s.world.cached s.world.dirty.toList

/-- **Settling a transaction**, of which the write-back is the last part. -/
theorem settle (tx : Transaction) (block : Block) (o : Outcome) :
    Reproducible source (tx.settle block o) := by
  -- the refund counter is read first
  refine after_get (fun s => ?_) fun _ => rfl
  dsimp only
  refine after_local (.addBalance _ _) fun _ => after_local (.addBalance _ _) fun _ => ?_
  refine after_local (.markTouched _) fun _ => after_local .removeAccounts fun selfDestructed => ?_
  exact flush_bind _ fun _ _ => rfl

/-- **A whole transaction.** -/
theorem apply (tx : Transaction) (block : Block) (precompiles : Std.ExtTreeMap Address Precompile) :
    Reproducible source (tx.apply block precompiles) := by
  refine after_local (.validate tx block) fun _ => after_local (.subBalance _ _) fun _ => ?_
  refine after_local (.warmUp tx _) fun _ => after_local (.start tx _) fun start => ?_
  exact after_local (.finish _ start) fun outcome => settle tx block outcome

end Reproducible

/-! ### Two sources -/

/-- What a computation came to, without the state that it left. -/
def answer {ε σ α : Type} : EStateM.Result ε σ α → Except ε α
  | .ok a _ => .ok a
  | .error e _ => .error e

/-- What a computation came to does not depend on where its state is put. -/
theorem answer_mapResult {ε σ τ α : Type} (put : σ → τ) (r : EStateM.Result ε σ α) :
    answer (mapResult id put r) = answer r := by
  cases r with
  | ok a s => rfl
  | error e s => rfl

namespace Transaction

/-- **Accounts that are not loaded make no difference.** Let two sources refuse nothing, and hold
the same account at every address that a transaction on the first one has loaded when it ends, in
whatever way. Then on the second one it loads the same addresses, with the same accounts, comes to
the same receipt or the same fault, and tells its source the same changes in the same order. -/
theorem unloaded_accounts_make_no_difference (tx : Transaction) (block : Block)
    (precompiles : Std.ExtTreeMap Address Precompile) (source source' : Source)
    (hsource : source.NeverFails) (hsource' : source'.NeverFails)
    (hagree : ∀ a ∈ (ended (tx.apply block precompiles (.ofSource source))).world.cache,
      source'.accounts[a]? = source.accounts[a]?) :
    let run := tx.apply block precompiles (.ofSource source)
    let run' := tx.apply block precompiles (.ofSource source')
    (ended run').world.cache = (ended run).world.cache ∧ answer run' = answer run ∧
      ∃ issued : List Change,
        (ended run).world.source.changes.toList = source.changes.toList ++ issued ∧
        (ended run').world.source.changes.toList = source'.changes.toList ++ issued := by
  intro run run'
  obtain ⟨-, hsame⟩ := Reproducible.apply tx block precompiles (.ofSource source) hsource hsource'
  have hloaded (a : Address) (ha : (ended run).world.Loaded a) :
      source'.accounts[a]? = source.accounts[a]? :=
    hagree a (Std.ExtTreeMap.isSome_getElem?_iff_mem.mp ha)
  obtain ⟨after, issued, hrun, hchanges, hafter⟩ := hsame hloaded
  -- nothing is loaded at first, so the two runs start in the same state but for the source
  have hrun' : run' = mapResult id (World.withSource · after) run := hrun
  have hended : ended run' = World.withSource (ended run) after := by rw [hrun', ended_mapResult]
  refine ⟨?_, ?_, issued, hchanges, ?_⟩
  · rw [hended]
    rfl
  · rw [hrun', answer_mapResult]
  · rw [hended]
    exact hafter

/-- A contract that asks for the balance of an address that nobody uses and keeps it. Nobody asks
for the account at `7`, so it makes no difference that it holds something in one source and
something else in the other. -/
theorem unasked_account_makes_no_difference :
    let accounts : Std.ExtTreeMap Address Account := ((∅ : Std.ExtTreeMap Address Account).insert 1
      { balance := 1000000 }).insert 2 { code := ⟨#[0x60, 4, 0x31, 0x60, 1, 0x01, 0x60, 0, 0x55]⟩ }
    let source : Source := { accounts }
    let source' : Source := { accounts := accounts.insert 7 { balance := 5, code := ⟨#[0xfe]⟩ } }
    let tx : Transaction :=
      { sender := 1, nonce := 0, gasLimit := 100000, recipient := some 2, gasPrice := 1 }
    source.NeverFails ∧ source'.NeverFails ∧
    (∀ a ∈ (ended (tx.apply {} ∅ (.ofSource source))).world.cache,
      source'.accounts[a]? = source.accounts[a]?) ∧
    source'.accounts[(7 : Address)]?.isSome ∧ source.accounts[(7 : Address)]?.isNone ∧
    ∃ r s s', tx.apply {} ∅ (.ofSource source) = .ok r s ∧
      tx.apply {} ∅ (.ofSource source') = .ok r s' ∧
      r.status = .success ∧ s.world.cache.keys = [0, 1, 2, 4] ∧ s'.world.cache.keys = [0, 1, 2, 4] ∧
      s.world.source.changes.size = 3 ∧ s'.world.source.changes = s.world.source.changes := by
  intro accounts source source' tx
  have hsource : source.NeverFails := ⟨rfl, rfl, rfl⟩
  have hsource' : source'.NeverFails := ⟨rfl, rfl, rfl⟩
  -- the first run is evaluated, and the second is known from the theorem
  have hends : endsWith (fun r s => decide (r.status = .success ∧
      s.world.cache.keys = [0, 1, 2, 4] ∧
      s.world.source.changes.size = 3)) (tx.apply {} ∅ (.ofSource source)) = true := by
        decide +kernel
  obtain ⟨r, s, happly, hends⟩ := endsWith_iff.mp hends
  obtain ⟨hstatus, hkeys, hsize⟩ := of_decide_eq_true hends
  have hagree : ∀ a ∈ (ended (tx.apply {} ∅ (.ofSource source))).world.cache,
      source'.accounts[a]? = source.accounts[a]? := by
    intro a ha
    rw [happly] at ha
    have hmem : a ∈ s.world.cache.keys := Std.ExtTreeMap.mem_keys.mpr ha
    -- of the addresses that were loaded, none is `7`
    have hne : (7 : Address) ≠ a := by
      rintro rfl
      rw [hkeys] at hmem
      exact absurd hmem (by decide)
    exact (Std.ExtTreeMap.getElem?_insert ..).trans
      (if_neg fun h => hne (Std.compare_eq_iff_eq.mp h))
  obtain ⟨hcache, hanswer, issued, hchanges, hchanges'⟩ :=
    unloaded_accounts_make_no_difference tx {} ∅ source source' hsource hsource' hagree
  rw [happly] at hcache hanswer hchanges
  refine ⟨hsource, hsource', hagree, by decide +kernel, by decide +kernel, r, s, ?_⟩
  cases happly' : tx.apply {} ∅ (.ofSource source') with
  | error e s' =>
    rw [happly'] at hanswer
    cases hanswer
  | ok r' s' =>
    rw [happly'] at hcache hanswer hchanges'
    obtain rfl : r' = r := Except.ok.inj hanswer
    refine ⟨s', happly, rfl, hstatus, hkeys, ?_, hsize, Array.ext' (hchanges'.trans hchanges.symm)⟩
    exact (congrArg Std.ExtTreeMap.keys hcache).trans hkeys

end Transaction

end EvmCore
