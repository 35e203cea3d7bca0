import EvmCore.Proofs.Course
import Mathlib

/-!
# What becomes of a creation

A frame that creates a contract is given the address of the contract or zero. In the first case all
is done: the init code has halted, its output is deployed and the price of storing it is paid
(`Machine.Creates`). In the second case nothing is left but a nonce that was spent
(`Machine.CreatesNothing`), and it was spent exactly if the checks that stand before everything else
were passed (`Creation.PassesChecks`), whatever went wrong afterwards.
-/

namespace EvmCore

/-! ### The checks before a creation -/

namespace Creation

/-- The checks that a creation has to pass before the nonce of its creator is spent. -/
def PassesChecks (c : Creation) (v : View) : Prop :=
  c.depth ≤ depthLimit ∧ c.value ≤ (v.get c.creator).balance ∧
  (v.get c.creator).nonce + 1 ≤ maxNonce

instance (c : Creation) (v : View) : Decidable (c.PassesChecks v) :=
  inferInstanceAs (Decidable (_ ∧ _ ∧ _))

/-- A creation that does not pass the checks is over before anything is done. -/
theorem done_of_not_passesChecks {c : Creation} {s s' : State} {r : Start}
    (hc : ¬c.PassesChecks s.view) (h : c.start s = .ok r s') :
    ∃ e, r = .done { exit := .failed e, gasLeft := c.gas } ∧ e ≠ .addressCollision ∧
      s'.view = s.view := by
  -- the three checks stand in this order, and each comes before anything is written
  rw [start] at h
  split at h
  · obtain ⟨rfl, rfl⟩ := pure_ok_iff.mp h
    exact ⟨_, rfl, by decide, rfl⟩
  · next hdepth =>
    obtain ⟨balance, s₁, hbalance, h⟩ := bind_ok_iff.mp h
    have hquiet₁ := (World.balance_mirrors _).quiet hbalance
    obtain rfl := (World.balance_mirrors _).answer hbalance
    split at h
    · obtain ⟨rfl, rfl⟩ := pure_ok_iff.mp h
      exact ⟨_, rfl, by decide, hquiet₁.view_eq⟩
    · next hfunded =>
      obtain ⟨nonce, s₂, hnonce, h⟩ := bind_ok_iff.mp h
      have hquiet₂ := (World.nonce_mirrors _).quiet hnonce
      have hanswer := (World.nonce_mirrors _).answer hnonce
      rw [hquiet₁.view_eq] at hanswer
      subst hanswer
      split at h
      · obtain ⟨rfl, rfl⟩ := pure_ok_iff.mp h
        exact ⟨_, rfl, by decide, hquiet₂.view_eq.trans hquiet₁.view_eq⟩
      · next hmax => exact absurd ⟨not_lt.mp hdepth, not_lt.mp hfunded, not_lt.mp hmax⟩ hc

/-- **A creation that comes to nothing at once** has failed, and spent the
nonce if it passed the checks. -/
theorem view_of_done {c : Creation} {s s' : State} {o : Outcome}
    (h : c.start s = .ok (.done o) s') :
    (∃ e, o.exit = .failed e) ∧
      s'.view = if c.PassesChecks s.view then c.spendNonce s.view else s.view := by
  -- of the ways to come to nothing, only a collision lies behind the checks
  by_cases hc : c.PassesChecks s.view
  · rw [if_pos hc]
    cases starts_of_start h with
    | tooDeep hdepth => exact absurd hc.1 (not_le.mpr hdepth)
    | unfunded _ hlack => exact absurd hc.2.1 (not_le.mpr hlack)
    | nonceAtMaximum _ hmax => exact absurd hc.2.2 (not_le.mpr hmax)
    | collided _ _ hview _ => exact ⟨⟨_, rfl⟩, hview⟩
  · obtain ⟨e, ho, -, hview⟩ := done_of_not_passesChecks hc h
    cases ho
    exact ⟨⟨e, rfl⟩, by rw [if_neg hc, hview]⟩

/-- Init code runs only if the checks are passed. -/
theorem passesChecks_of_frame {c : Creation} {s s' : State} {child : Frame}
    (h : c.start s = .ok (.frame child) s') : c.PassesChecks s.view := by
  by_contra hc
  obtain ⟨e, hdone, -⟩ := done_of_not_passesChecks hc h
  cases hdone

end Creation

/-! ### Requests -/

/-- The address of the contract that a frame requests, by what is shown: from the nonce of the
creator, or from a salt and the init code. -/
def CreateRequest.address (r : CreateRequest) (f : Frame) (v : View) : Except Fault Address :=
  match r.salt with
  | some salt =>
    Creation.saltedAddress f.message.self salt (f.memory.read r.inputOffset r.inputSize)
  | none => Creation.addressAt f.message.self (v.get f.message.self).nonce

namespace Frame

variable {ctx : Context} {f f' : Frame} {s s' : State} {r : CreateRequest} {o : Outcome}

/-- The address that is found is the one that the request gives. -/
theorem createAddress_answer {address : Address}
    (h : createAddress f.message.self r (f.memory.read r.inputOffset r.inputSize) s =
      .ok address s') :
    r.address f s.view = .ok address := by
  rw [createAddress] at h
  rw [CreateRequest.address]
  cases hsalt : r.salt with
  | some salt =>
    -- a salted address depends on nothing that is shown
    rw [hsalt] at h
    exact (Action.liftExcept_ok_iff.mp h).1
  | none =>
    rw [hsalt] at h
    obtain ⟨nonce, s₁, hnonce, h⟩ := bind_ok_iff.mp h
    obtain rfl := (World.nonce_mirrors _).answer hnonce
    exact (Action.liftExcept_ok_iff.mp h).1

/-- Beginning a creation starts it at the address that the request gives. -/
theorem begin_create {start : Start} (hmode : f.mode = .awaitingCreate (some r))
    (h : f.begin ctx ⟨f, s⟩ = .ok start ⟨f', s'⟩) :
    ∃ address s₀, r.address f s.view = .ok address ∧ Quiet s s₀ ∧
      (r.toCreation f address).start s₀ = .ok start s' ∧
      f' = { f with returnData := .empty, gas := f.keptGas } := by
  rw [Frame.begin, hmode] at h
  change beginCreate r ⟨f, s⟩ = _ at h
  rw [beginCreate_eq] at h
  obtain ⟨address, s₀, haddress, h⟩ := liftState_bind_ok h
  obtain ⟨s₁, hstart, hf⟩ := liftState_ok_iff.mp h
  cases hf
  exact ⟨address, s₀, createAddress_answer haddress, createAddress_quiet _ _ _ haddress,
    hstart, rfl⟩

/-- What a frame that created goes on with. -/
theorem resume_create (h : resume o f = .ok () f') (hmode : f.mode = .awaitingCreate (some r)) :
    ∃ w, o.createdWord = .ok w ∧ f' = { f with
      gas := f.gas + o.gasLeft
      stack := w :: f.stack
      returnData := if o.reverted then o.output else .empty
      mode := .running
      pc := f.pc + 1 } := by
  cases goesOn_of_resume h with
  | call hcall => cases hmode.symm.trans hcall
  | create _ hword => exact ⟨_, hword, rfl⟩

end Frame

/-- An outcome other than a halt gives the creator zero. -/
theorem Outcome.createdWord_of_not_halted {o : Outcome} (h : o.exit ≠ .halted) :
    o.createdWord = .ok 0 := by
  rw [createdWord]
  cases hexit : o.exit with
  | halted => exact absurd hexit h
  | reverted => rfl
  | failed e => rfl

/-! ### The two ends of a creation -/

namespace Machine

variable {ctx : Context} {m m' : Machine}

/-- The creation `c` of the top frame of `m` is complete in `m'`, and `init` is
its init code as it ended. -/
structure Creates (m : Machine) (c : Creation) (init : Frame) (m' : Machine) : Prop where
  stack : m'.top.stack = c.address.toWord :: m.top.stack
  code : (m'.state.view.get c.address).code = init.output
  size_le : init.output.size ≤ 24576
  firstByte : init.output.data[0]? ≠ some 0xEF
  affordable : 200 * init.output.size ≤ init.gas
  gas : m'.top.gas = m.top.gas - c.gas + (init.gas - 200 * init.output.size)
  returnData : m'.top.returnData = .empty

/-- What init code leaves behind for its creator: its output, if it reverted. -/
def leftBehind : (last : Option Frame) → ByteArray
  | some init => if init.mode = .exited .reverted then init.output else .empty
  | none => .empty

/-- The creation `c` of the top frame of `m` has failed in `m'`. If init code
ran, `last` is its last state. -/
structure CreatesNothing (m : Machine) (c : Creation) (last : Option Frame) (m' : Machine) :
    Prop where
  stack : m'.top.stack = 0 :: m.top.stack
  view : m'.state.view =
    if c.PassesChecks m.state.view then c.spendNonce m.state.view else m.state.view
  returnData : m'.top.returnData = leftBehind last

/-- The frame of the init code as it ended was sent what it was started with. -/
theorem RunsAbove.message_of_child {child f : Frame} {s : State} {m₂ : Machine}
    (hruns : RunsAbove ctx (m.waiting.length + 1) ⟨child, f :: m.waiting, s⟩ m₂)
    (hlength : m₂.waiting.length = m.waiting.length + 1) : m₂.top.message = child.message := by
  -- no turn changes the message of a frame, whatever runs above it
  have hcourse := hruns.course
    (I := fun m₁ => (m₁.frameAt (m.waiting.length + 1)).message = child.message) (le_refl _)
    (fun hturn hm => hturn.message.trans hm)
    (congrArg Frame.message (frameAt_length (m := ⟨child, f :: m.waiting, s⟩) rfl))
  rwa [frameAt_length hlength] at hcourse

end Machine

/-- A frame with less than no gas, which has done nothing yet or has failed. -/
structure Frame.Overdrawn (f : Frame) : Prop where
  gas : f.gas < 0
  mode : f.mode = .running ∨ ∃ e, f.mode = .exited (.failed e)

namespace Frame.Overdrawn

variable {ctx : Context} {f f' : Frame} {s s' : State}

/-- No instruction is free enough for a frame that has less than no gas, so
that its next step fails. -/
theorem step (hf : f.Overdrawn) (h : Steps ctx f s f' s') : f'.Overdrawn := by
  -- the constant cost of an instruction is not negative, and comes first
  have hconstant {op : Opcode} {operation : Operation} (hat : f.IsAt op operation) :
      ¬operation.constantGas ≤ f.gas := by
    have hnonneg := (Opcode.operation_nonneg hat.operation?).1
    have hgas := hf.gas
    omega
  cases h with
  | unprepared e hunprepared =>
    obtain hgas | ⟨op, operation, hat, hle, -⟩ := hunprepared.gas
    · exact ⟨hgas ▸ hf.gas, .inr ⟨e, rfl⟩⟩
    · exact absurd hle (hconstant hat)
  | failed _ hprepared _ => exact absurd hprepared.constant (hconstant hprepared.isAt)
  | executed hprepared _ => exact absurd hprepared.constant (hconstant hprepared.isAt)

/-- It does not wait for anything either. -/
theorem not_waits (hf : f.Overdrawn) : ¬f.Waits := by
  intro hwaits
  obtain hmode | ⟨e, hmode⟩ := hf.mode
  · exact hwaits.ne_running hmode
  · exact hwaits.active _ hmode

/-- There is nothing that it could go on with. -/
theorem resume_ne_ok {o : Outcome} (hf : f.Overdrawn) : Frame.resume o f ≠ .ok () f' := by
  intro h
  cases goesOn_of_resume h with
  | call hcall =>
    obtain hmode | ⟨e, hmode⟩ := hf.mode
    · cases hmode.symm.trans hcall
    · cases hmode.symm.trans hcall
  | create hcreate =>
    obtain hmode | ⟨e, hmode⟩ := hf.mode
    · cases hmode.symm.trans hcreate
    · cases hmode.symm.trans hcreate

end Frame.Overdrawn

namespace Machine

variable {ctx : Context} {m : Machine}

/-- A frame stays overdrawn all along its course. -/
theorem Turn.overdrawn {n : Nat} {m' : Machine} (h : Turn ctx n m m')
    (hm : (m.frameAt n).Overdrawn) : (m'.frameAt n).Overdrawn := by
  cases h with
  | rest _ _ hframe => exact hframe ▸ hm
  | step _ _ _ hstep => exact hm.step (steps_of_step hstep)
  | push _ _ hbegin => exact absurd (Frame.waits_of_begin hbegin) hm.not_waits
  | settle _ _ hbegin _ => exact absurd (Frame.waits_of_begin hbegin) hm.not_waits
  | pop _ _ _ _ hresume => exact absurd hresume hm.resume_ne_ok

/-- Init code that ends with gas was started with gas. -/
theorem RunsAbove.gas_nonneg_of_child {child f : Frame} {s : State} {m₂ : Machine}
    (hruns : RunsAbove ctx (m.waiting.length + 1) ⟨child, f :: m.waiting, s⟩ m₂)
    (hlength : m₂.waiting.length = m.waiting.length + 1) (hmode : child.mode = .running)
    (hgas : 0 ≤ m₂.top.gas) : 0 ≤ child.gas := by
  -- otherwise it would have been overdrawn from its beginning to its end
  by_contra hneg
  have hchild : (frameAt (m.waiting.length + 1) ⟨child, f :: m.waiting, s⟩).Overdrawn := by
    rw [frameAt_length (n := m.waiting.length + 1) rfl]
    exact ⟨not_le.mp hneg, .inl hmode⟩
  have hcourse := hruns.course (I := fun m₁ => (m₁.frameAt (m.waiting.length + 1)).Overdrawn)
    (le_refl _) Turn.overdrawn hchild
  rw [frameAt_length hlength] at hcourse
  exact absurd hgas (not_le.mpr hcourse.gas)

end Machine

/-- Code that can be deployed is short enough, does not start with the reserved
byte, and can be paid for. -/
theorem deployable_of_deployFailure? {code : ByteArray} {gas : Int}
    (h : deployFailure? code gas = none) :
    code.size ≤ 24576 ∧ code.data[0]? ≠ some 0xEF ∧ 200 * (code.size : Int) ≤ gas := by
  -- the three limits are tested one after the other
  rw [deployFailure?] at h
  split at h
  · cases h
  · next hsize =>
    split at h
    · cases h
    · next hfirst =>
      split at h
      · cases h
      · next hgas =>
        exact ⟨not_lt.mp hsize, hfirst, mul_comm 200 (code.size : Int) ▸ not_lt.mp hgas⟩

/-- Leaving init code whose layer was opened at `c`: its output is deployed, or what was
shown at `c` is shown again. -/
theorem Leaves.creation_cases {init : Frame} {c s s' : State} {o : Outcome} (h : Leaves init s o s')
    (hinit : init.message.isInit = true) (hs : Moves AnyChange c.opened s) :
    (o = { exit := .halted, gasLeft := init.gas - init.output.size * Gas.createByte,
           created := some init.message.self } ∧
      deployFailure? init.output init.gas = none ∧
      (s'.view.get init.message.self).code = init.output) ∨
    (o.exit ≠ .halted ∧ s'.view = c.view ∧
      (if o.reverted then o.output else .empty) = Machine.leftBehind (some init)) := by
  have hview := (h.contained hs).view_eq
  cases h with
  | halted _ hnot _ _ => cases hinit.symm.trans hnot
  | deployed _ _ hdeployable hgrows hcode hcommit hquiet =>
    have hcommitted := (hs.toGrows.trans hgrows).view_eq_of_commit hcommit hquiet
    refine .inl ⟨rfl, hdeployable, ?_⟩
    rw [hcommitted, hcode, View.get_update, if_pos rfl]
  -- in these cases the layer was reverted, and what is left behind depends on how the frame ended
  | undeployable hmode _ _ _ _ =>
    refine .inr ⟨nofun, hview nofun, ?_⟩
    rw [Machine.leftBehind, hmode]
    rfl
  | reverted hmode _ _ =>
    refine .inr ⟨nofun, hview nofun, ?_⟩
    rw [Machine.leftBehind, hmode]
    rfl
  | failed hmode _ _ =>
    refine .inr ⟨nofun, hview nofun, ?_⟩
    rw [Machine.leftBehind, hmode]
    rfl

/-- **A creation succeeds completely or leaves only the nonce.** Let the top frame wait for a
creation that it requests, and let the machine run until this frame goes on. The contract is at the
address that the request gives. Either its init code ran and halted, its output is the code of the
contract, fits the limits and was paid for by the byte, and the frame has the address on top of its
stack; or it has zero there, and all that is shown is as before, but for the nonce of the creator,
which is spent exactly if the checks were passed. -/
theorem creation_succeeds_or_leaves_only_the_nonce {ctx : Context} {m m' : Machine}
    {r : CreateRequest} {last : Option Frame} (hmode : m.top.mode = .awaitingCreate (some r))
    (h : m.Resolves ctx last m') :
    ∃ address, r.address m.top m.state.view = .ok address ∧
      m'.waiting = m.waiting ∧ m'.top.mode = .running ∧ m'.top.message = m.top.message ∧
      m'.top.memory = m.top.memory ∧
      ((∃ init, last = some init ∧ init.message = (r.toCreation m.top address).frame.message ∧
          (r.toCreation m.top address).PassesChecks m.state.view ∧
          m.Creates (r.toCreation m.top address) init m') ∨
        m.CreatesNothing (r.toCreation m.top address) last m') := by
  obtain ⟨hwaiting, ⟨rfl, f, o, hbegin, hresume⟩ |
    ⟨child, f, s, m₂, o, a, rfl, hbegin, hruns, hlength, hleave, hresume, hstate⟩⟩ :=
    h.elim (.inr ⟨r, hmode⟩)
  · -- no init code ran
    obtain ⟨address, s₀, haddress, hquiet, hstart, rfl⟩ := Frame.begin_create hmode hbegin
    obtain ⟨w, hword, htop⟩ := Frame.resume_create hresume hmode
    obtain ⟨⟨e, hexit⟩, hview⟩ := Creation.view_of_done hstart
    rw [hquiet.view_eq] at hview
    rw [Outcome.createdWord_of_not_halted (by rw [hexit]; nofun)] at hword
    cases hword
    rw [htop]
    refine ⟨address, haddress, hwaiting, rfl, rfl, rfl, .inr ⟨by rw [htop], hview, ?_⟩⟩
    rw [htop, Machine.leftBehind, Outcome.reverted, hexit]
    rfl
  · -- init code ran, and was left
    obtain ⟨address, s₀, haddress, hquiet, hstart, rfl⟩ := Frame.begin_create hmode hbegin
    obtain ⟨w, hword, htop⟩ := Frame.resume_create hresume hmode
    have hchecks := Creation.passesChecks_of_frame hstart
    rw [hquiet.view_eq] at hchecks
    have hmessage := hruns.message_of_child hlength
    cases Creation.starts_of_start hstart with
    | @frame c _ _ _ hgrows hspent henters =>
      rw [hquiet.view_eq] at hspent
      -- when the init code is on top at its end, its layer is the only one above its checkpoint
      have hnested := hruns.nested AnyChange.respected ⟨[], Nat.zero_add _,
        .root ⟨henters.grows, trivial⟩⟩
      have hleaves := Frame.leaves_of_leave hleave
      rw [htop]
      refine ⟨address, haddress, hwaiting, rfl, rfl, rfl, ?_⟩
      obtain ⟨rfl, hdeployable, hcode⟩ | ⟨hexit, hview, hbehind⟩ :=
        hleaves.creation_cases (hmessage ▸ rfl) (hnested.moves hlength)
      · obtain ⟨hsize, hfirst, hpaid⟩ := deployable_of_deployFailure? hdeployable
        have hself : m₂.top.message.self = address := hmessage ▸ rfl
        cases hword
        refine .inl ⟨m₂.top, rfl, hmessage, hchecks, ⟨?_, ?_, hsize, hfirst, hpaid, ?_, ?_⟩⟩
        · rw [htop, hself]
          rfl
        · rw [hstate]
          exact hself ▸ hcode
        · -- the init code had gas at its end, so it was given some and the frame has paid for it
          have hgas : 0 ≤ m.top.gas - m.top.gas / 64 :=
            hruns.gas_nonneg_of_child hlength rfl (le_trans (by omega) hpaid)
          rw [htop, mul_comm 200]
          exact congrArg (· + (m₂.top.gas - m₂.top.output.size * Gas.createByte))
            (Frame.keptGas_of_nonneg hgas)
        · rw [htop]
          rfl
      · -- the init code reverted, failed, or its output could not be deployed
        rw [Outcome.createdWord_of_not_halted hexit] at hword
        cases hword
        refine .inr ⟨by rw [htop], ?_, ?_⟩
        · rw [hstate, hview, if_pos hchecks, hspent]
        · rw [htop]
          exact hbehind

/-- A contract of one byte is created, with a value; and init code that reverts with one byte leaves
that byte and a nonce behind. -/
theorem one_byte_is_deployed_or_left_behind :
    let source : Source :=
      { accounts := (∅ : Std.ExtTreeMap Address Account).insert 1 { balance := 7 } }
    let request : CreateRequest := { value := 7, inputOffset := 0, inputSize := 4 }
    let m (exit : UInt8) : Machine :=
      { top :=
          { message := { self := 1, caller := 2, codeAddress := 1, code := .ofBytes .empty }
            gas := 100000
            memory := ⟨#[0x60, 1, 0x59, exit]⟩
            mode := .awaitingCreate (some request) }
        state := .ofSource source }
    (∃ address init m', (m 0xf3).Resolves {} (some init) m' ∧
      (m 0xf3).Creates (request.toCreation (m 0xf3).top address) init m') ∧
    (∃ address init m', (m 0xfd).Resolves {} (some init) m' ∧ m'.top.returnData.size = 1 ∧
      (m 0xfd).CreatesNothing (request.toCreation (m 0xfd).top address) (some init) m') := by
  intro source request m
  constructor
  · obtain ⟨init, m', hresolves, htest⟩ :
        ∃ init m', (m 0xf3).Resolves {} (some init) m' ∧ (m'.top.stack.head? != some 0) = true :=
      Machine.exists_resolves_of_childEndsWith (k := 4) (t := fun f => f.stack.head? != some 0) rfl
        (by decide +kernel)
    obtain ⟨address, -, -, -, -, -, ⟨_, hinit, -, -, hcreates⟩ | hnothing⟩ :=
      creation_succeeds_or_leaves_only_the_nonce rfl hresolves
    · cases hinit
      exact ⟨address, init, m', hresolves, hcreates⟩
    · rw [hnothing.stack] at htest
      exact absurd htest (by decide)
  · obtain ⟨init, m', hresolves, htest⟩ :
        ∃ init m', (m 0xfd).Resolves {} (some init) m' ∧ (m'.top.returnData.size == 1) = true :=
      Machine.exists_resolves_of_childEndsWith (k := 4) (t := fun f => f.returnData.size == 1) rfl
        (by decide +kernel)
    rw [beq_iff_eq] at htest
    obtain ⟨address, -, -, -, -, -, ⟨_, hinit, -, -, hcreates⟩ | hnothing⟩ :=
      creation_succeeds_or_leaves_only_the_nonce rfl hresolves
    · rw [hcreates.returnData] at htest
      exact absurd htest (by decide)
    · exact ⟨address, init, m', hresolves, htest, hnothing⟩

end EvmCore
