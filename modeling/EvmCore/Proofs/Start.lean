import EvmCore.Machine
import EvmCore.Proofs.Mirror
import Mathlib

/-!
# What starting a call or a creation does

A call or a creation either comes to nothing right away, or opens a layer of the journal and works
in it before any code runs. `preamble` is the part up to the checkpoint, `inLayer` the part after
it. `Call.Starts` and `Creation.Starts` say what can come of starting one, with the state `s₀` in
which the layer is opened. The two differ in what stands before it: a call that is admitted has
changed nothing yet, whereas a creation has already spent the creator's nonce, which a revert of the
new frame does not give back.
-/

namespace EvmCore

/-! ### Calls -/

namespace Call

/-- Whether the caller lacks the value that it is to transfer. -/
def UnfundedOn (c : Call) (v : View) : Prop :=
  c.transfersValue = true ∧ 0 < c.value ∧ (v.get c.caller).balance < c.value

instance (c : Call) (v : View) : Decidable (c.UnfundedOn v) :=
  inferInstanceAs (Decidable (_ ∧ _ ∧ _))

/-- Touches the account that is called and moves the value to it. -/
def moveOnView (c : Call) : ViewM Unit :=
  if c.transfersValue then do
    View.writes fun v => v.touch c.address
    View.writes fun v => v.markTouched c.address
    if 0 < c.value then View.transfer c.caller c.address c.value
  else pure ()

/-- What moving the value of a call does: nothing, or its address is touched,
and paid if there is a value. -/
theorem moveOnView_ok {c : Call} {v v' : View} (h : c.moveOnView v = .ok () v') :
    v' = v ∨ c.transfersValue = true ∧ (v' = (v.touch c.address).markTouched c.address ∨
      0 < c.value ∧ View.transfer c.caller c.address c.value
        ((v.touch c.address).markTouched c.address) = .ok () v') := by
  rw [moveOnView] at h
  split at h
  · next htransfers =>
    obtain ⟨_, v₁, htouch, h⟩ := bind_ok_iff.mp h
    obtain ⟨-, rfl⟩ := EStateM.Result.ok.inj htouch
    obtain ⟨_, v₂, hmark, h⟩ := bind_ok_iff.mp h
    obtain ⟨-, rfl⟩ := EStateM.Result.ok.inj hmark
    split at h
    · next hvalue => exact .inr ⟨htransfers, .inr ⟨hvalue, h⟩⟩
    · exact .inr ⟨htransfers, .inl (pure_ok_iff.mp h).2.symm⟩
  · exact .inl (pure_ok_iff.mp h).2.symm

/-- The work in a layer opened at `s₀` before any code runs. -/
structure Enters (c : Call) (s₀ s₁ : State) : Prop where
  funded : ¬c.UnfundedOn s₀.view
  grows : Grows s₀.opened s₁
  moved : c.moveOnView s₀.view = .ok () s₁.view

/-- What stands before the checkpoint of a call: the outcome, if the call comes to nothing. -/
def preamble (ctx : Context) (c : Call) : Action (Option Outcome) := do
  if depthLimit < c.depth then
    State.emit (.callTooDeep c.address c.depth)
    return some { exit := .failed .depth, gasLeft := c.gas }
  if ← c.isUnfunded then
    State.emit (.callUnfunded c.address c.value)
    return some { exit := .failed .insufficientBalance, gasLeft := c.gas }
  if ← c.isVoid ctx then return some { exit := .halted, gasLeft := c.gas }
  return none

/-- What follows once the layer of a call is open. -/
def inLayer (ctx : Context) (c : Call) : Action Start := do
  c.moveValue
  if let some precompile := ctx.precompiles[c.codeAddress]? then
    return .done (← c.runPrecompile precompile)
  let code ← World.code c.codeAddress
  if code.size = 0 then
    State.commit
    return .done { exit := .halted, gasLeft := c.gas }
  State.emit (.callEntered c.depth c.address c.codeAddress c.gas)
  return .frame (c.frame code)

/-- What comes of starting a call. -/
inductive Starts (ctx : Context) (c : Call) (s : State) : Start → State → Prop
  | tooDeep {s' : State} : Quiet s s' → depthLimit < c.depth →
      Starts ctx c s (.done { exit := .failed .depth, gasLeft := c.gas }) s'
  | unfunded {s' : State} : Quiet s s' → c.UnfundedOn s.view →
      Starts ctx c s (.done { exit := .failed .insufficientBalance, gasLeft := c.gas }) s'
  | void {s' : State} : Quiet s s' → c.transfersValue = true → c.value = 0 →
      Starts ctx c s (.done { exit := .halted, gasLeft := c.gas }) s'
  | exhausted {s₀ s₁ s' : State} {precompile : Precompile} {output : ByteArray} {cost : Int} :
      Quiet s s₀ → c.Enters s₀ s₁ → ctx.precompiles[c.codeAddress]? = some precompile →
      precompile c.input c.gas = .ok (output, cost) → c.gas < cost → State.revert s₁ = .ok () s' →
      Starts ctx c s (.done { exit := .failed .outOfGas, gasLeft := 0 }) s'
  | precompiled {s₀ s₁ s' : State} {precompile : Precompile} {output : ByteArray} {cost : Int} :
      Quiet s s₀ → c.Enters s₀ s₁ → ctx.precompiles[c.codeAddress]? = some precompile →
      precompile c.input c.gas = .ok (output, cost) → cost ≤ c.gas → State.commit s₁ = .ok () s' →
      Starts ctx c s (.done { exit := .halted, gasLeft := c.gas - cost, output }) s'
  | codeless {s₀ s₁ s' : State} :
      Quiet s s₀ → c.Enters s₀ s₁ → (s₁.view.get c.codeAddress).code.size = 0 →
      State.commit s₁ = .ok () s' →
      Starts ctx c s (.done { exit := .halted, gasLeft := c.gas }) s'
  | frame {s₀ s₁ : State} : c.preamble ctx s = .ok none s₀ →
      Quiet s s₀ → c.Enters s₀ s₁ → (s₁.view.get c.codeAddress).code.size ≠ 0 →
      Starts ctx c s (.frame (c.frame (s₁.view.get c.codeAddress).code)) s₁

/-- Whether the caller lacks the value is asked of what is shown. -/
theorem isUnfunded_mirrors (c : Call) :
    Mirrors c.isUnfunded (View.reads fun v => decide (c.UnfundedOn v)) := by
  rw [isUnfunded]
  split
  · -- Only a transfer of some value asks for the balance.
    next h =>
    rw [Bool.and_eq_true, decide_eq_true_eq] at h
    refine ((World.balance_mirrors c.caller).read fun b => decide (b < c.value)).congr fun v => ?_
    refine congrArg (EStateM.Result.ok · v) (decide_eq_decide.mpr ?_)
    exact ⟨fun hv => ⟨h.1, h.2, hv⟩, fun hv => hv.2.2⟩
  · next h =>
    rw [Bool.and_eq_true, decide_eq_true_eq] at h
    refine (Mirrors.pure false).congr fun v => ?_
    refine congrArg (EStateM.Result.ok · v) (decide_eq_false ?_).symm
    exact fun hv => h ⟨hv.1, hv.2.1⟩

/-- Deciding that a call is void changes nothing that is shown. -/
theorem isVoid_quiet (ctx : Context) (c : Call) : Keeps Quiet (c.isVoid ctx) := by
  refine Keeps.ite ?_ (Keeps.pure _)
  exact (World.isPresent_mirrors _).quiet.bind fun _ => Keeps.pure _

/-- A void call is one that transfers, and transfers nothing. -/
theorem isVoid_true {ctx : Context} {c : Call} {s s' : State}
    (h : c.isVoid ctx s = .ok true s') : c.transfersValue = true ∧ c.value = 0 := by
  rw [isVoid] at h
  split at h
  · next htransfers =>
    obtain ⟨present, s₁, -, h⟩ := bind_ok_iff.mp h
    obtain ⟨h, -⟩ := pure_ok_iff.mp h
    rw [Bool.and_eq_true, decide_eq_true_eq] at h
    exact ⟨htransfers, h.2⟩
  · obtain ⟨h, -⟩ := pure_ok_iff.mp h
    cases h

/-- Moving the value of a call, on what is shown. -/
theorem moveValue_mirrors (c : Call) : Mirrors c.moveValue c.moveOnView := by
  refine Mirrors.ite ?_ (Mirrors.pure ())
  refine (World.touch_mirrors _).bind fun _ => (Substate.touch_mirrors _).bind fun _ => ?_
  exact Mirrors.ite (World.transfer_mirrors _ _ _) (Mirrors.pure ())

/-- What is only looked at after a call was entered leaves it entered. -/
theorem Enters.quiet {c : Call} {s₀ s₁ s₂ : State} (h : c.Enters s₀ s₁) (hquiet : Quiet s₁ s₂) :
    c.Enters s₀ s₂ where
  funded := h.funded
  grows := h.grows.trans hquiet.toGrows
  moved := by rw [hquiet.view_eq, h.moved]

/-- A call is its part before the checkpoint, and then its part in the layer. -/
theorem start_eq (ctx : Context) (c : Call) : c.start ctx = c.preamble ctx >>= fun
    | some outcome => pure (.done outcome)
    | none => State.checkpoint >>= fun _ => c.inLayer ctx := by
  rw [start, preamble]
  split
  · rfl
  · -- Both sides ask the same two questions, and part only where one of them ends the call.
    rw [bind_assoc]
    congr 1
    funext unfunded
    cases unfunded with
    | true => rfl
    | false =>
      change (c.isVoid ctx >>= _) = (c.isVoid ctx >>= _) >>= _
      rw [bind_assoc]
      congr 1
      funext void
      cases void with
      | true => rfl
      | false => rfl

/-- **What follows the checkpoint** of a call that was admitted. -/
theorem starts_of_inLayer {ctx : Context} {c : Call} {s s₀ s' : State} {r : Start}
    (hpreamble : c.preamble ctx s = .ok none s₀) (hquiet : Quiet s s₀)
    (hfunded : ¬c.UnfundedOn s₀.view) (h : c.inLayer ctx s₀.opened = .ok r s') :
    Starts ctx c s r s' := by
  obtain ⟨_, s₁, hmove, h⟩ := bind_ok_iff.mp h
  obtain ⟨hgrows, hmoved⟩ := c.moveValue_mirrors.ok hmove
  have henters : c.Enters s₀ s₁ := ⟨hfunded, hgrows, hmoved⟩
  cases hprecompile : ctx.precompiles[c.codeAddress]? with
  | some precompile =>
    -- A precompiled contract runs at once, so its layer is closed again before the caller goes on.
    simp only [hprecompile] at h
    obtain ⟨outcome, s₂, hrun, h⟩ := bind_ok_iff.mp h
    obtain ⟨rfl, rfl⟩ := pure_ok_iff.mp h
    obtain ⟨⟨output, cost⟩, s₃, hlift, hrun⟩ := bind_ok_iff.mp hrun
    obtain ⟨houtput, rfl⟩ := Action.liftExcept_ok_iff.mp hlift
    by_cases hcost : c.gas < cost
    · simp only [if_pos hcost] at hrun
      obtain ⟨_, s₄, hrevert, hrun⟩ := bind_ok_iff.mp hrun
      obtain ⟨rfl, rfl⟩ := pure_ok_iff.mp hrun
      exact .exhausted hquiet henters hprecompile houtput hcost hrevert
    · simp only [if_neg hcost] at hrun
      obtain ⟨_, s₄, hcommit, hrun⟩ := bind_ok_iff.mp hrun
      obtain ⟨rfl, rfl⟩ := pure_ok_iff.mp hrun
      exact .precompiled hquiet henters hprecompile houtput (not_lt.mp hcost) hcommit
  | none =>
    simp only [hprecompile] at h
    obtain ⟨code, s₂, hcode, h⟩ := bind_ok_iff.mp h
    -- Asking for the code may fetch the account, so the answer is restated about the later view.
    have hquiet₂ := (World.code_mirrors _).quiet hcode
    have hanswer : code = (s₂.view.get c.codeAddress).code := by
      rw [hquiet₂.view_eq]
      exact (World.code_mirrors _).answer hcode
    subst hanswer
    -- Without code there is nothing to run, and the layer is closed at once.
    by_cases hsize : (s₂.view.get c.codeAddress).code.size = 0
    · simp only [if_pos hsize] at h
      obtain ⟨_, s₃, hcommit, h⟩ := bind_ok_iff.mp h
      obtain ⟨rfl, rfl⟩ := pure_ok_iff.mp h
      exact .codeless hquiet (henters.quiet hquiet₂) hsize hcommit
    · simp only [if_neg hsize] at h
      obtain ⟨_, s₃, hemit, h⟩ := bind_ok_iff.mp h
      obtain ⟨rfl, rfl⟩ := pure_ok_iff.mp h
      obtain rfl := modify_ok_iff.mp hemit
      exact .frame hpreamble hquiet ((henters.quiet hquiet₂).quiet (State.emit_quiet _ hemit)) hsize

/-- **What stands before the checkpoint.** A call that is admitted was only looked at. -/
theorem preamble_cases {ctx : Context} {c : Call} {s s' : State} {outcome? : Option Outcome}
    (h : c.preamble ctx s = .ok outcome? s') :
    (∃ o, outcome? = some o ∧ Starts ctx c s (.done o) s') ∨
    (outcome? = none ∧ Quiet s s' ∧ ¬c.UnfundedOn s'.view) := by
  rw [preamble] at h
  split at h
  · next hdepth =>
    obtain ⟨_, s₁, hemit, h⟩ := bind_ok_iff.mp h
    obtain ⟨rfl, rfl⟩ := pure_ok_iff.mp h
    exact .inl ⟨_, rfl, .tooDeep (State.emit_quiet _ hemit) hdepth⟩
  · obtain ⟨unfunded, s₁, hunfunded, h⟩ := bind_ok_iff.mp h
    -- The questions are quiet, so each answer is about the view that the call was made on.
    have hquiet₁ := c.isUnfunded_mirrors.quiet hunfunded
    have hanswer := c.isUnfunded_mirrors.answer hunfunded
    split at h
    · next htrue =>
      obtain ⟨_, s₂, hemit, h⟩ := bind_ok_iff.mp h
      obtain ⟨rfl, rfl⟩ := pure_ok_iff.mp h
      rw [hanswer, decide_eq_true_eq] at htrue
      exact .inl ⟨_, rfl, .unfunded (IsTrans.trans _ _ _ hquiet₁ (State.emit_quiet _ hemit)) htrue⟩
    · next hfalse =>
      rw [hanswer, decide_eq_true_eq] at hfalse
      obtain ⟨void, s₂, hvoid, h⟩ := bind_ok_iff.mp h
      have hquiet₂ : Quiet s s₂ := IsTrans.trans _ _ _ hquiet₁ (isVoid_quiet ctx c hvoid)
      split at h
      · next htrue =>
        obtain ⟨rfl, rfl⟩ := pure_ok_iff.mp h
        rw [htrue] at hvoid
        exact .inl ⟨_, rfl, .void hquiet₂ (isVoid_true hvoid).1 (isVoid_true hvoid).2⟩
      · obtain ⟨rfl, rfl⟩ := pure_ok_iff.mp h
        rw [← hquiet₂.view_eq] at hfalse
        exact .inr ⟨rfl, hquiet₂, hfalse⟩

/-- **What starting a call does.** -/
theorem starts_of_start {ctx : Context} {c : Call} {s s' : State} {r : Start}
    (h : c.start ctx s = .ok r s') : Starts ctx c s r s' := by
  rw [start_eq] at h
  obtain ⟨outcome?, s₀, hpreamble, h⟩ := bind_ok_iff.mp h
  obtain ⟨o, rfl, hstarts⟩ | ⟨rfl, hquiet, hfunded⟩ := preamble_cases hpreamble
  · obtain ⟨rfl, rfl⟩ := pure_ok_iff.mp h
    exact hstarts
  · obtain ⟨_, s₁, hcheckpoint, h⟩ := bind_ok_iff.mp h
    cases (State.checkpoint_eq s₀).symm.trans hcheckpoint
    exact starts_of_inLayer hpreamble hquiet hfunded h

/-- A frame that a call starts is running. -/
theorem Starts.child_mode {ctx : Context} {c : Call} {s s' : State} {child : Frame}
    (h : Starts ctx c s (.frame child) s') : child.mode = .running := by
  cases h with
  | frame => rfl

end Call

/-! ### Creations -/

namespace Creation

/-- The creator's nonce is spent before anything else. -/
def spendNonce (c : Creation) (v : View) : View :=
  v.update c.creator ({ · with nonce := (v.get c.creator).nonce + 1 })

/-- Whether an address is taken. -/
def TakenOn (a : Address) (v : View) : Prop :=
  (v.get a).nonce ≠ 0 ∨ (v.get a).code.size ≠ 0 ∨ (v.get a).storage.isEmpty = false

instance (a : Address) (v : View) : Decidable (TakenOn a v) :=
  inferInstanceAs (Decidable (_ ∨ _ ∨ _))

/-- Starts the contract and moves the value to it. -/
def enterOnView (c : Creation) : ViewM Unit := do
  View.writes fun v => v.create c.address
  if 0 < c.value then View.transfer c.creator c.address c.value

/-- What entering a creation does: the contract is started, and paid if there is a value. -/
theorem enterOnView_ok {c : Creation} {v v' : View} (h : c.enterOnView v = .ok () v') :
    v' = v.create c.address ∨
      0 < c.value ∧ View.transfer c.creator c.address c.value (v.create c.address) = .ok () v' := by
  obtain ⟨_, v₁, hcreate, h⟩ := bind_ok_iff.mp h
  obtain ⟨-, rfl⟩ := EStateM.Result.ok.inj hcreate
  split at h
  · next hvalue => exact .inr ⟨hvalue, h⟩
  · exact .inl (pure_ok_iff.mp h).2.symm

/-- The work in a layer opened at `s₀` before any init code runs. -/
structure Enters (c : Creation) (s₀ s₁ : State) : Prop where
  free : ¬TakenOn c.address s₀.view
  grows : Grows s₀.opened s₁
  entered : c.enterOnView s₀.view = .ok () s₁.view

/-- What stands before the checkpoint of a creation: the outcome, if the
creation comes to nothing. -/
def preamble (c : Creation) : Action (Option Outcome) := do
  if depthLimit < c.depth then return some { exit := .failed .depth, gasLeft := c.gas }
  if (← World.balance c.creator) < c.value then
    return some { exit := .failed .insufficientBalance, gasLeft := c.gas }
  let nonce ← World.nonce c.creator
  if maxNonce < nonce + 1 then
    return some { exit := .failed .nonceOverflow, gasLeft := c.gas }
  World.setNonce c.creator (nonce + 1)
  discard (Substate.warmAccount c.address)
  if ← isTaken c.address then
    State.emit (.createCollided c.address)
    return some { exit := .failed .addressCollision, gasLeft := 0 }
  return none

/-- What follows once the layer of a creation is open. -/
def inLayer (c : Creation) : Action Start := do
  World.create c.address
  if 0 < c.value then World.transfer c.creator c.address c.value
  State.emit (.createEntered c.depth c.address c.gas)
  return .frame c.frame

/-- What comes of starting a creation. -/
inductive Starts (c : Creation) (s : State) : Start → State → Prop
  | tooDeep : depthLimit < c.depth →
      Starts c s (.done { exit := .failed .depth, gasLeft := c.gas }) s
  | unfunded {s' : State} : Quiet s s' → (s.view.get c.creator).balance < c.value →
      Starts c s (.done { exit := .failed .insufficientBalance, gasLeft := c.gas }) s'
  | nonceAtMaximum {s' : State} : Quiet s s' → maxNonce < (s.view.get c.creator).nonce + 1 →
      Starts c s (.done { exit := .failed .nonceOverflow, gasLeft := c.gas }) s'
  | collided {s' : State} : c.value ≤ (s.view.get c.creator).balance → Grows s s' →
      s'.view = c.spendNonce s.view → TakenOn c.address s'.view →
      Starts c s (.done { exit := .failed .addressCollision, gasLeft := 0 }) s'
  | frame {s₀ s₁ : State} : c.preamble s = .ok none s₀ → c.value ≤ (s.view.get c.creator).balance →
      Grows s s₀ → s₀.view = c.spendNonce s.view → c.Enters s₀ s₁ → Starts c s (.frame c.frame) s₁

/-- Whether an address is taken is asked of what is shown. -/
theorem isTaken_mirrors (a : Address) :
    Mirrors (isTaken a) (View.reads fun v => decide (TakenOn a v)) := by
  refine ((World.nonce_mirrors a).bind (g := fun nonce => View.reads fun v =>
    decide (nonce ≠ 0 ∨ (v.get a).code.size ≠ 0 ∨ (v.get a).storage.isEmpty = false))
    fun nonce => ?_).congr fun _ => rfl
  -- The three questions are asked in turn, and the first that says so decides.
  by_cases hnonce : nonce = 0
  · simp only [hnonce, ne_eq, not_true_eq_false, if_false, false_or]
    refine ((World.code_mirrors a).bind (g := fun code => View.reads fun v =>
      decide (¬code.size = 0 ∨ (v.get a).storage.isEmpty = false)) fun code => ?_).congr
        fun _ => rfl
    by_cases hcode : code.size = 0
    · simp only [hcode, not_true_eq_false, if_false, false_or]
      refine (World.hasStorage_mirrors a).congr fun v => ?_
      rw [View.reads, View.reads]
      cases (v.get a).storage.isEmpty <;> rfl
    · simp only [hcode, not_false_eq_true, if_true, true_or, decide_true]
      exact Mirrors.pure true
  · simp only [hnonce, ne_eq, not_false_eq_true, if_true, true_or, decide_true]
    exact Mirrors.pure true

/-- **What follows the checkpoint** of a creation always is a frame for the init code. -/
theorem enters_of_inLayer {c : Creation} {s₀ s' : State} {r : Start}
    (hfree : ¬TakenOn c.address s₀.view) (h : c.inLayer s₀.opened = .ok r s') :
    c.Enters s₀ s' ∧ r = .frame c.frame := by
  have hmirrors : Mirrors (World.create c.address >>= fun _ =>
      if 0 < c.value then World.transfer c.creator c.address c.value else pure ()) c.enterOnView :=
    (World.create_mirrors c.address).bind fun _ =>
      Mirrors.ite (World.transfer_mirrors _ _ _) (Mirrors.pure ())
  -- The event that is recorded last is set apart, since all before it is mirrored.
  have hsplit : c.inLayer = (World.create c.address >>= fun _ =>
      if 0 < c.value then World.transfer c.creator c.address c.value else pure ()) >>= fun _ =>
      State.emit (.createEntered c.depth c.address c.gas) >>= fun _ => pure (.frame c.frame) := by
    rw [inLayer, bind_assoc]
    congr 1
    funext _
    split
    · rfl
    · rfl
  rw [hsplit] at h
  obtain ⟨_, s₁, henter, h⟩ := bind_ok_iff.mp h
  obtain ⟨hgrows, hview⟩ := hmirrors.ok henter
  obtain ⟨_, s₂, hemit, h⟩ := bind_ok_iff.mp h
  obtain ⟨rfl, rfl⟩ := pure_ok_iff.mp h
  have hquiet := State.emit_quiet _ hemit
  refine ⟨⟨hfree, hgrows.trans hquiet.toGrows, ?_⟩, rfl⟩
  rw [hquiet.view_eq]
  exact hview

/-- A creation is its part before the checkpoint, and then its part in the layer. -/
theorem start_eq (c : Creation) : c.start = c.preamble >>= fun
    | some outcome => pure (.done outcome)
    | none => State.checkpoint >>= fun _ => c.inLayer := by
  rw [start, preamble]
  split
  · rfl
  · -- Each of the first two questions may end the creation.
    rw [bind_assoc]
    congr 1
    funext balance
    split
    · rfl
    · rw [bind_assoc]
      congr 1
      funext nonce
      split
      · rfl
      · simp only [bind_assoc]
        -- From here on no question stands between, up to whether the address is taken.
        refine bind_congr fun _ => bind_congr fun _ => bind_congr fun taken => ?_
        cases taken with
        | true => rfl
        | false => rfl

/-- **What stands before the checkpoint.** A creation that is admitted has
spent the creator's nonce. -/
theorem preamble_cases {c : Creation} {s s' : State} {outcome? : Option Outcome}
    (h : c.preamble s = .ok outcome? s') :
    (∃ o, outcome? = some o ∧ Starts c s (.done o) s') ∨
    (outcome? = none ∧ c.value ≤ (s.view.get c.creator).balance ∧ Grows s s' ∧
      s'.view = c.spendNonce s.view ∧ ¬TakenOn c.address s'.view) := by
  rw [preamble] at h
  split at h
  · next hdepth =>
    obtain ⟨rfl, rfl⟩ := pure_ok_iff.mp h
    exact .inl ⟨_, rfl, .tooDeep hdepth⟩
  · obtain ⟨balance, s₁, hbalance, h⟩ := bind_ok_iff.mp h
    -- The questions are quiet, so each answer is about the view that the creation was made on.
    have hquiet₁ := (World.balance_mirrors _).quiet hbalance
    obtain rfl := (World.balance_mirrors _).answer hbalance
    split at h
    · next hlack =>
      obtain ⟨rfl, rfl⟩ := pure_ok_iff.mp h
      exact .inl ⟨_, rfl, .unfunded hquiet₁ hlack⟩
    · next hfunded =>
      obtain ⟨nonce, s₂, hnonce, h⟩ := bind_ok_iff.mp h
      have hquiet₂ : Quiet s s₂ :=
        IsTrans.trans _ _ _ hquiet₁ ((World.nonce_mirrors _).quiet hnonce)
      have hanswer := (World.nonce_mirrors _).answer hnonce
      rw [hquiet₁.view_eq] at hanswer
      subst hanswer
      split at h
      · next hmax =>
        obtain ⟨rfl, rfl⟩ := pure_ok_iff.mp h
        exact .inl ⟨_, rfl, .nonceAtMaximum hquiet₂ hmax⟩
      · obtain ⟨_, s₃, hspend, h⟩ := bind_ok_iff.mp h
        obtain ⟨_, s₄, hdiscard, h⟩ := bind_ok_iff.mp h
        obtain ⟨taken, s₆, htaken, h⟩ := bind_ok_iff.mp h
        -- up to here the nonce was spent, the address warmed, and accounts were looked at
        have hquiet₆ : Quiet s₃ s₆ :=
          IsTrans.trans _ _ _ ((Substate.warmAccount_quiet _).discard hdiscard)
          ((isTaken_mirrors _).quiet htaken)
        have hgrows : Grows s s₆ := (hquiet₂.toGrows.trans
          ((World.setNonce_mirrors _ _).grows hspend)).trans hquiet₆.toGrows
        have hview : s₆.view = c.spendNonce s.view := by
          rw [hquiet₆.view_eq, (World.setNonce_mirrors _ _).view_eq hspend, hquiet₂.view_eq]
          rfl
        have hanswer := (isTaken_mirrors _).answer htaken
        rw [← ((isTaken_mirrors _).quiet htaken).view_eq] at hanswer
        split at h
        · next htrue =>
          obtain ⟨_, s₇, hemit, h⟩ := bind_ok_iff.mp h
          obtain ⟨rfl, rfl⟩ := pure_ok_iff.mp h
          have hquiet₇ := State.emit_quiet _ hemit
          rw [hanswer, decide_eq_true_eq, ← hquiet₇.view_eq] at htrue
          exact .inl ⟨_, rfl, .collided (not_lt.mp hfunded) (hgrows.trans hquiet₇.toGrows)
            (hquiet₇.view_eq.trans hview) htrue⟩
        · next hfalse =>
          rw [hanswer, decide_eq_true_eq] at hfalse
          obtain ⟨rfl, rfl⟩ := pure_ok_iff.mp h
          exact .inr ⟨rfl, not_lt.mp hfunded, hgrows, hview, hfalse⟩

/-- **What starting a creation does.** -/
theorem starts_of_start {c : Creation} {s s' : State} {r : Start}
    (h : c.start s = .ok r s') : Starts c s r s' := by
  rw [start_eq] at h
  obtain ⟨outcome?, s₀, hpreamble, h⟩ := bind_ok_iff.mp h
  obtain ⟨o, rfl, hstarts⟩ | ⟨rfl, hfunded, hgrows, hview, hfree⟩ := preamble_cases hpreamble
  · obtain ⟨rfl, rfl⟩ := pure_ok_iff.mp h
    exact hstarts
  · obtain ⟨_, s₁, hcheckpoint, h⟩ := bind_ok_iff.mp h
    cases (State.checkpoint_eq s₀).symm.trans hcheckpoint
    obtain ⟨henters, rfl⟩ := enters_of_inLayer hfree h
    exact .frame hpreamble hfunded hgrows hview henters

/-- A frame that a creation starts is running. -/
theorem Starts.child_mode {c : Creation} {s s' : State} {child : Frame}
    (h : Starts c s (.frame child) s') : child.mode = .running := by
  cases h with
  | frame => rfl

end Creation

end EvmCore
