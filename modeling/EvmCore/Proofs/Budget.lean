import EvmCore.Proofs.Charge
import Mathlib

/-!
# Gas is a decreasing budget

The gas of all frames of a machine, together with what the top frame has taken from its own to give
to a callee, is a budget that no iteration raises (`Iterates.totalGas_le`). A step that does not end
its frame lowers it (`Steps.spends`). Iterations that only hand gas from one frame to another leave
it alone, and then something else is lower afterwards: `Machine.measure` weighs the budget, what the
top frame is about, and how many frames wait, so that every iteration lowers it
(`Iterates.measure_lt`). Hence every execution ends, within a number of iterations that is linear in
the gas it was entered with.

All this rests on the absence of negative numbers. `Machine.NonNegative` is the invariant that
carries it from iteration to iteration. A frame that failed is exempt, since the instruction that
failed may have left its stack half done; nothing but its gas matters any more.
-/

namespace EvmCore

/-! ### Steps -/

/-- The gas that a frame has taken from its own to give to a callee. -/
def Frame.pendingGas (f : Frame) : Int :=
  match f.mode with
  | .awaitingCall (some r) => r.gas
  | _ => 0

/-- Whether a frame has not ended. -/
def Frame.Active (f : Frame) : Prop := ∀ exit, f.mode ≠ .exited exit

/-- A frame that is not active has ended in some way. -/
theorem Frame.exited_of_not_active {f : Frame} (h : ¬f.Active) : ∃ exit, f.mode = .exited exit := by
  unfold Active at h
  push Not at h
  exact h

/-- A frame that runs is active. -/
theorem Frame.active_of_running {f : Frame} (h : f.mode = .running) : f.Active := by
  intro exit hexit
  rw [h] at hexit
  cases hexit

/-- What a step leaves of the gas of a frame: something is spent unless the frame has ended. -/
structure Frame.Spends (f f' : Frame) : Prop where
  gas : 0 ≤ f'.gas
  le : f'.gas + f'.pendingGas ≤ f.gas
  nonNegative : f'.Active → f'.NonNegative
  lt : f'.Active → f'.gas + f'.pendingGas < f.gas

/-- A frame that has ended has nothing pending. -/
theorem Frame.pendingGas_of_exited {f : Frame} {exit : Exit} (h : f.mode = .exited exit) :
    f.pendingGas = 0 := by
  rw [pendingGas, h]

/-- Nor has one that runs. -/
theorem Frame.pendingGas_of_running {f : Frame} (h : f.mode = .running) : f.pendingGas = 0 := by
  rw [pendingGas, h]

/-- What is pending is not negative. -/
theorem Frame.NonNegative.pendingGas {f : Frame} (h : f.NonNegative) : 0 ≤ f.pendingGas := by
  unfold Frame.pendingGas
  split
  · next r hmode => exact (h.call r hmode).1
  · exact le_rfl

/-- A frame that fails keeps at most its gas. -/
theorem Frame.Spends.of_failed {f f₁ : Frame} (e : Failure) (hgas : 0 ≤ f₁.gas)
    (hle : f₁.gas ≤ f.gas) :
    Frame.Spends f { f₁ with mode := .exited (.failed e) } where
  gas := hgas
  le := by
    rw [Frame.pendingGas_of_exited rfl]
    exact (Int.add_zero f₁.gas).trans_le hle
  nonNegative hactive := absurd rfl (hactive (.failed e))
  lt hactive := absurd rfl (hactive (.failed e))

namespace Executes

variable {ctx : Context} {forwarded : Int} {op : Opcode} {f f' : Frame} {s s' : State}

/-- Running an instruction leaves the gas alone: it was paid for before. -/
theorem gas_eq (h : Executes ctx forwarded op f s f' s') : f'.gas = f.gas := by
  cases h <;> rfl

/-- Only a call leaves gas pending. It has a constant cost, and what it leaves pending was forwarded
to it or charged for the transfer. -/
theorem pendingGas_le (h : Executes ctx forwarded op f s f' s') (hmode : f.mode = .running)
    {operation : Operation} (hop : op.operation? = some operation) :
    f'.pendingGas = 0 ∨ (0 < operation.constantGas ∧
      f'.pendingGas ≤ forwarded + operation.dynamic.least f.stack) := by
  cases h with
  | @call kind _ _ r hrequest =>
    have hgas : r.gas ≤ forwarded + (DynamicCost.call kind).least f.stack :=
      Step.callRequest_gas_le hrequest
    cases kind <;> (cases hop; exact .inr ⟨of_decide_eq_true rfl, hgas⟩)
  | stop | «return» | revert | selfDestruct | create => exact .inl rfl
  | _ => exact .inl (Frame.pendingGas_of_running hmode)

/-- An instruction that ends frames leaves none that has not ended. -/
theorem ends_of_active (h : Executes ctx forwarded op f s f' s') (hactive : f'.Active) :
    op.ends = false := by
  cases h with
  | stop | «return» | selfDestruct => exact absurd rfl (hactive .halted)
  | revert => exact absurd rfl (hactive .reverted)
  | _ => rfl

end Executes

/-- **A step spends gas**, unless it ends its frame, and never gives any back. -/
theorem Steps.spends {ctx : Context} {f f' : Frame} {s s' : State} (h : Steps ctx f s f' s')
    (hctx : ctx.NonNegative) (hview : s.view.NonNegative) (hf : f.NonNegative)
    (hmode : f.mode = .running) : f.Spends f' := by
  cases h with
  | @unprepared f₁ _ e hunprepared =>
    have hgas : 0 ≤ f₁.gas ∧ f₁.gas ≤ f.gas := by
      -- the failure came before or after the constant cost was taken
      rcases hunprepared.gas with hgas | ⟨op, operation, hat, hle, hgas⟩
      · rw [hgas]
        exact ⟨hf.gas, le_rfl⟩
      · have hconstant := (Opcode.operation_nonneg hat.operation?).1
        omega
    exact .of_failed e hgas.1 hgas.2
  | @failed op operation charge f₁ f₂ _ _ e hprepared huntouched =>
    have hgas₂ : f₂.gas = f₁.gas := huntouched.gas
    refine .of_failed e ?_ ?_
    · rw [hgas₂]
      exact (hprepared.nonNegative hf).gas
    · -- the instruction failed after everything was paid, and gives nothing back
      have hpaid := hprepared.gas_add_le hf
      have hforwarded := (hprepared.covers hf).forwarded
      have hconstant := (Opcode.operation_nonneg hprepared.isAt.operation?).1
      have hleast := operation.dynamic.least_nonneg f.stack
      omega
  | @executed op operation charge f₁ _ s₁ _ hprepared hexecutes =>
    have hf₁ : f₁.NonNegative := hprepared.nonNegative hf
    have hmode₁ : f₁.mode = .running := hprepared.mode.trans hmode
    have hview₁ : s₁.view.NonNegative := hprepared.quiet.view_eq ▸ hview
    have hforwarded : 0 ≤ charge.forwarded := (hprepared.covers hf).forwarded
    have hf' : f'.NonNegative := hexecutes.nonNegative hctx hview₁ hf₁ hforwarded
    -- what was paid, against what is pending now
    have hpaid := hprepared.gas_add_le hf
    rw [← hexecutes.gas_eq] at hpaid
    have hat := hprepared.isAt.operation?
    have hconstant := (Opcode.operation_nonneg hat).1
    have hleast := operation.dynamic.least_nonneg f.stack
    have hpending := hexecutes.pendingGas_le hmode₁ hat
    rw [hprepared.stack] at hpending
    refine ⟨hf'.gas, ?_, fun _ => hf', fun hactive => ?_⟩
    · rcases hpending with hnone | ⟨-, hpending⟩
      · omega
      · omega
    · -- a call is paid for beside what it leaves pending; anything else has a price of its own
      rcases hpending with hnone | ⟨hconstant, hpending⟩
      · have hcost := Opcode.cost_pos hat (hexecutes.ends_of_active hactive) f.stack
        omega
      · omega

/-! ### Handing gas from one frame to another -/

/-- An outcome that gives back no more than `gas`. -/
structure Outcome.Within (gas : Int) (o : Outcome) : Prop where
  nonneg : 0 ≤ o.gasLeft
  le : o.gasLeft ≤ gas

section Handing

variable {ctx : Context} {f f' : Frame} {s s' : State} {o : Outcome}

/-- A call that comes to nothing gives back its gas, all or none of it; a contract that
is built in takes its price. -/
theorem Call.Starts.within {c : Call} (h : Call.Starts ctx c s (.done o) s')
    (hctx : ctx.NonNegative) (hgas : 0 ≤ c.gas) : o.Within c.gas := by
  cases h with
  | tooDeep | unfunded | void | codeless => exact ⟨hgas, le_rfl⟩
  | exhausted => exact ⟨le_rfl, hgas⟩
  | precompiled _ _ hprecompile houtput hcost _ =>
    have hprice := hctx.cost hprecompile houtput
    exact ⟨sub_nonneg.mpr hcost, sub_le_self _ hprice⟩

/-- A creation that comes to nothing gives back all of its gas or none. -/
theorem Creation.Starts.within {c : Creation} (h : Creation.Starts c s (.done o) s')
    (hgas : 0 ≤ c.gas) : o.Within c.gas := by
  cases h with
  | tooDeep | unfunded | nonceAtMaximum => exact ⟨hgas, le_rfl⟩
  | collided => exact ⟨le_rfl, hgas⟩

/-- A frame that is about to begin. -/
theorem Frame.NonNegative.of_fresh (hgas : 0 ≤ f.gas) (hvalue : 0 ≤ f.message.value)
    (hpc : f.pc = 0) (hstack : f.stack = []) (hmode : f.mode = .running) : f.NonNegative where
  gas := hgas
  value := hvalue
  pc := hpc.ge
  stack w hw := by
    rw [hstack] at hw
    exact absurd hw List.not_mem_nil
  call r hr := by
    rw [hmode] at hr
    cases hr
  create r hr := by
    rw [hmode] at hr
    cases hr

namespace Begins

variable {child : Frame} {start : Start}

/-- Both parts of the gas of a frame that creates: what goes to the init code, and what it keeps. -/
theorem split_nonneg {gas : Int} (h : 0 ≤ gas) :
    0 ≤ gas - gas / 64 ∧ 0 ≤ gas - (gas - gas / 64) := by
  constructor
  · omega
  · omega

/-- A frame that waits holds no negative number either: of its gas it keeps a part in 64. -/
theorem nonNegative (h : Begins ctx f s f' start s') (hf : f.NonNegative) : f'.NonNegative := by
  cases h with
  | call => exact ⟨hf.gas, hf.value, hf.pc, hf.stack, hf.call, hf.create⟩
  | create =>
    -- the init code is not given all of the gas, whatever the gas is
    obtain ⟨hforwarded, hkept⟩ := split_nonneg hf.gas
    have hgas : 0 ≤ f.keptGas := Frame.keptGas_of_nonneg hforwarded ▸ hkept
    exact ⟨hgas, hf.value, hf.pc, hf.stack, hf.call, hf.create⟩

/-- **A child is paid by its parent**, from what is pending for a call, or from
the gas for a creation. -/
theorem child_gas (h : Begins ctx f s f' (.frame child) s') (hf : f.NonNegative) :
    child.NonNegative ∧ child.mode = .running ∧ child.gas + f'.gas = f.gas + f.pendingGas := by
  cases h with
  | @call r _ _ hmode hstarts =>
    obtain ⟨hgas, hvalue⟩ := hf.call r hmode
    cases hstarts with
    | frame =>
      refine ⟨.of_fresh hgas hvalue rfl rfl rfl, rfl, ?_⟩
      rw [Frame.pendingGas, hmode]
      exact Int.add_comm r.gas f.gas
  | @create r address _ _ _ hmode _ _ hstarts =>
    have hgas : 0 ≤ f.gas - f.gas / 64 := (split_nonneg hf.gas).1
    cases hstarts with
    | frame =>
      refine ⟨.of_fresh hgas (hf.create r hmode) rfl rfl rfl, rfl, ?_⟩
      rw [Frame.pendingGas, hmode]
      change f.gas - f.gas / 64 + f.keptGas = f.gas + 0
      rw [Frame.keptGas_of_nonneg hgas]
      ring

/-- What comes to nothing gives back at most what was taken for it. -/
theorem outcome_gas (h : Begins ctx f s f' (.done o) s') (hctx : ctx.NonNegative)
    (hf : f.NonNegative) :
    0 ≤ o.gasLeft ∧ f'.gas + o.gasLeft ≤ f.gas + f.pendingGas := by
  cases h with
  | @call r _ _ hmode hstarts =>
    have hwithin := hstarts.within hctx (hf.call r hmode).1
    refine ⟨hwithin.nonneg, ?_⟩
    rw [Frame.pendingGas, hmode]
    exact Int.add_le_add_left hwithin.le f.gas
  | @create r address _ _ _ hmode _ _ hstarts =>
    have hgas : 0 ≤ f.gas - f.gas / 64 := (split_nonneg hf.gas).1
    have hwithin := hstarts.within hgas
    refine ⟨hwithin.nonneg, ?_⟩
    have hle : o.gasLeft ≤ f.gas - f.gas / 64 := hwithin.le
    rw [Frame.pendingGas, hmode]
    change f.keptGas + o.gasLeft ≤ f.gas + 0
    rw [Frame.keptGas_of_nonneg hgas]
    omega

end Begins

/-- A frame that is left gives back at most its gas, less what its code costs to deploy. -/
theorem Leaves.within (h : Leaves f s o s') (hgas : 0 ≤ f.gas) : o.Within f.gas := by
  cases h with
  | halted | reverted => exact ⟨hgas, le_rfl⟩
  | undeployable | failed => exact ⟨le_rfl, hgas⟩
  | deployed _ _ hdeployable _ _ _ _ =>
    have hcost : 0 ≤ (f.output.size : Int) * Gas.createByte :=
      Int.mul_nonneg (Int.natCast_nonneg _) (by decide)
    have hpaid : (f.output.size : Int) * Gas.createByte ≤ f.gas := by
      -- a contract that cannot pay for its code is not deployed
      by_contra hlt
      unfold deployFailure? at hdeployable
      rw [if_pos (not_le.mp hlt)] at hdeployable
      split at hdeployable
      · cases hdeployable
      · split at hdeployable
        · cases hdeployable
        · cases hdeployable
    exact ⟨sub_nonneg.mpr hpaid, sub_le_self _ hcost⟩

/-- Only a frame that has ended is left. -/
theorem Leaves.mode (h : Leaves f s o s') : ∃ exit, f.mode = .exited exit := by
  cases h with
  | halted hmode | deployed hmode | undeployable hmode => exact ⟨_, hmode⟩
  | reverted hmode => exact ⟨_, hmode⟩
  | failed hmode => exact ⟨_, hmode⟩

/-- A creation leaves an address or zero behind. -/
theorem Outcome.createdWord_cases {w : Word} (h : o.createdWord = .ok w) :
    w = 0 ∨ ∃ a : Address, w = a.toWord := by
  obtain ⟨exit, gasLeft, output, created⟩ := o
  cases exit with
  | halted =>
    cases created with
    | some a => exact .inr ⟨a, (Except.ok.inj h).symm⟩
    | none => cases h
  | reverted | failed => exact .inl (Except.ok.inj h).symm

/-- A frame that goes on holds no negative number. -/
theorem Resumes.nonNegative (h : Resumes f o f') (hf : f.NonNegative) (ho : 0 ≤ o.gasLeft) :
    f'.NonNegative where
  gas := h.gas ▸ Int.add_nonneg hf.gas ho
  value := h.message ▸ hf.value
  pc := h.pc ▸ Int.add_nonneg hf.pc Int.one_nonneg
  stack := by
    obtain ⟨w, hstack, hw⟩ := h.stack
    rw [hstack]
    refine List.forall_mem_cons.mpr ⟨?_, hf.stack⟩
    rcases hw with rfl | hw
    · exact Word.ofBool_nonneg _
    · -- a word that is pushed is a truth value, an address or zero
      obtain hw | ⟨a, hw⟩ := Outcome.createdWord_cases hw
      · exact hw.ge
      · rw [hw]
        exact Address.toWord_nonneg a
  call r hr := by
    rw [h.mode] at hr
    cases hr
  create r hr := by
    rw [h.mode] at hr
    cases hr

end Handing

/-! ### The machine -/

/-- What a frame is about, weighed against gas: one that waits has more ahead
of it than one that runs. -/
def Mode.weight : Mode → Nat
  | .running => 2
  | .awaitingCall _ | .awaitingCreate _ => 5
  | .exited _ => 1

/-- Nothing weighs less than a frame that has ended, or more than one that waits. -/
theorem Mode.weight_bounds (mode : Mode) : 1 ≤ mode.weight ∧ mode.weight ≤ 5 := by
  cases mode with
  | running => exact ⟨by decide, by decide⟩
  | awaitingCall request | awaitingCreate request => exact ⟨Nat.succ_pos 4, le_rfl⟩
  | exited exit => exact ⟨le_rfl, Nat.succ_pos 4⟩

namespace Machine

/-- The gas of all frames, and what the top frame has taken from its own to give to a callee. -/
def totalGas (m : Machine) : Int := m.top.gas + m.top.pendingGas + (m.waiting.map Frame.gas).sum

/-- What every iteration lowers. -/
def measure (m : Machine) : Nat := 4 * m.totalGas.toNat + m.top.mode.weight + 2 * m.waiting.length

/-- No frame has negative gas, and no frame that may go on holds any negative
number, nor do the accounts. -/
structure NonNegative (m : Machine) : Prop where
  gas : 0 ≤ m.top.gas
  top : m.top.Active → m.top.NonNegative
  waiting : ∀ f ∈ m.waiting, f.NonNegative
  nested : ∃ base : State, base.view.NonNegative ∧ m.Nested View.Preserves base 0

namespace NonNegative

variable {m : Machine}

/-- The accounts are without negative numbers too, through all the layers. -/
theorem view (h : m.NonNegative) : m.state.view.NonNegative := by
  obtain ⟨base, hbase, cs, -, hlayered⟩ := h.nested
  exact hlayered.respects hbase

/-- What the top frame has taken for a callee is not negative. -/
theorem pendingGas (h : m.NonNegative) : 0 ≤ m.top.pendingGas := by
  by_cases hactive : m.top.Active
  · exact (h.top hactive).pendingGas
  · -- a frame that has ended has nothing pending
    obtain ⟨exit, hexit⟩ := Frame.exited_of_not_active hactive
    exact (Frame.pendingGas_of_exited hexit).ge

/-- What a step of the top frame spends. -/
theorem spends {ctx : Context} {f' : Frame} {s' : State} (h : m.NonNegative)
    (hctx : ctx.NonNegative) (hmode : m.top.mode = .running)
    (hsteps : Steps ctx m.top m.state f' s') : m.top.Spends f' :=
  hsteps.spends hctx h.view (h.top (Frame.active_of_running hmode)) hmode

/-- The top frame holds part of the budget. -/
theorem top_gas_le (h : m.NonNegative) : m.top.gas + m.top.pendingGas ≤ m.totalGas := by
  -- the other part belongs to the frames that wait
  have hwaiting : 0 ≤ (m.waiting.map Frame.gas).sum := by
    refine List.sum_nonneg fun gas hgas => ?_
    obtain ⟨f, hf, rfl⟩ := List.mem_map.mp hgas
    exact (h.waiting f hf).gas
  exact le_add_of_nonneg_right hwaiting

/-- The budget is not negative. -/
theorem totalGas (h : m.NonNegative) : 0 ≤ m.totalGas :=
  (Int.add_nonneg h.gas h.pendingGas).trans h.top_gas_le

end NonNegative

end Machine

/-- A frame that begins a request is active, and weighs as much as any. -/
theorem Begins.mode {ctx : Context} {f f' : Frame} {s s' : State} {start : Start}
    (h : Begins ctx f s f' start s') : f.Active ∧ f.mode.weight = 5 := by
  cases h with
  | call hmode _ =>
    refine ⟨fun exit hexit => ?_, by rw [hmode]; rfl⟩
    rw [hmode] at hexit
    cases hexit
  | create hmode _ _ _ =>
    refine ⟨fun exit hexit => ?_, by rw [hmode]; rfl⟩
    rw [hmode] at hexit
    cases hexit

namespace Iterates

variable {ctx : Context} {m m' : Machine}

/-- **The invariant**, in an iteration. -/
theorem nonNegative (h : Iterates ctx m m') (hctx : ctx.NonNegative) (hm : m.NonNegative) :
    m'.NonNegative := by
  -- Balances and storage come from the layers, whatever kind of iteration this is.
  have hnested : ∃ base : State, base.view.NonNegative ∧ m'.Nested View.Preserves base 0 := by
    obtain ⟨base, hbase, hnested⟩ := hm.nested
    -- only a frame that runs writes storage, and its stack holds no negative word
    refine ⟨base, hbase, h.nested hnested (Nat.zero_le _) (View.Preserves.respects ?_ _)⟩
    intro hmode
    exact (hm.top (Frame.active_of_running hmode)).stack
  cases h with
  | step hmode hsteps =>
    have hspends := hm.spends hctx hmode hsteps
    exact ⟨hspends.gas, hspends.nonNegative, hm.waiting, hnested⟩
  | push hbegins =>
    have hf := hm.top hbegins.mode.1
    have hchild := (hbegins.child_gas hf).1
    exact ⟨hchild.gas, fun _ => hchild,
      List.forall_mem_cons.mpr ⟨hbegins.nonNegative hf, hm.waiting⟩, hnested⟩
  | resume hbegins hresumes =>
    have hf := hm.top hbegins.mode.1
    have hresumed := hresumes.nonNegative (hbegins.nonNegative hf) (hbegins.outcome_gas hctx hf).1
    exact ⟨hresumed.gas, fun _ => hresumed, hm.waiting, hnested⟩
  | pop hleaves hresumes =>
    obtain ⟨hparent, hwaiting⟩ := List.forall_mem_cons.mp hm.waiting
    have hresumed := hresumes.nonNegative hparent (hleaves.within hm.gas).nonneg
    exact ⟨hresumed.gas, fun _ => hresumed, hwaiting, hnested⟩

/-- **No iteration raises the budget.** -/
theorem totalGas_le (h : Iterates ctx m m') (hctx : ctx.NonNegative) (hm : m.NonNegative) :
    m'.totalGas ≤ m.totalGas := by
  unfold Machine.totalGas
  cases h with
  | step hmode hsteps =>
    have hspends := hm.spends hctx hmode hsteps
    have hle := hspends.le
    have hpending := hm.pendingGas
    dsimp only at hle hpending ⊢
    omega
  -- The child is paid from what was pending or from the parent's gas, which now waits.
  | push hbegins =>
    obtain ⟨-, hmode, hgas⟩ := hbegins.child_gas (hm.top hbegins.mode.1)
    dsimp only
    rw [Frame.pendingGas_of_running hmode, List.map_cons, List.sum_cons]
    omega
  | resume hbegins hresumes =>
    have hgas := (hbegins.outcome_gas hctx (hm.top hbegins.mode.1)).2
    dsimp only
    rw [Frame.pendingGas_of_running hresumes.mode, hresumes.gas]
    omega
  -- The parent gets back what the frame leaves over, and that is at most what it had.
  | pop hleaves hresumes =>
    have hgas := (hleaves.within hm.gas).le
    have hpending := hm.pendingGas
    dsimp only at hgas hpending ⊢
    rw [Frame.pendingGas_of_running hresumes.mode, hresumes.gas, List.map_cons, List.sum_cons]
    omega

/-- **A step that does not end its frame lowers the budget.** -/
theorem totalGas_lt (h : Iterates ctx m m') (hctx : ctx.NonNegative) (hm : m.NonNegative)
    (hmode : m.top.mode = .running) (hactive : m'.top.Active) : m'.totalGas < m.totalGas := by
  unfold Machine.totalGas
  cases h with
  | step _ hsteps =>
    have hspends := hm.spends hctx hmode hsteps
    have hlt := hspends.lt hactive
    have hpending := hm.pendingGas
    dsimp only at hlt hpending ⊢
    omega
  | push hbegins | resume hbegins _ =>
    -- a frame that waits does not run
    have hweight := hbegins.mode.2
    rw [hmode] at hweight
    cases hweight
  | pop hleaves _ =>
    obtain ⟨exit, hexit⟩ := hleaves.mode
    cases hexit.symm.trans hmode

/-- **Every iteration lowers the measure.** -/
theorem measure_lt (h : Iterates ctx m m') (hctx : ctx.NonNegative) (hm : m.NonNegative) :
    m'.measure < m.measure := by
  have hgas : m'.totalGas.toNat ≤ m.totalGas.toNat := Int.toNat_le_toNat (h.totalGas_le hctx hm)
  unfold Machine.measure
  cases h with
  | @step f f' waiting s s' hmode hsteps =>
    have hweight : f.mode.weight = 2 := by rw [hmode]; rfl
    by_cases hactive : f'.Active
    · -- four units are spent, which pays for a request
      have hlt := totalGas_lt (.step hmode hsteps) hctx hm hmode hactive
      have hnonneg := (nonNegative (.step hmode hsteps) hctx hm).totalGas
      have hweight' : f'.mode.weight ≤ 5 := f'.mode.weight_bounds.2
      dsimp only
      omega
    · -- a frame that has ended weighs less than one that runs, so it need not spend
      obtain ⟨exit, hexit⟩ := Frame.exited_of_not_active hactive
      have hweight' : f'.mode.weight = 1 := by rw [hexit]; rfl
      dsimp only
      omega
  -- the parent was about a request, which weighs as much as a running child
  -- and one more frame that waits
  | push hbegins =>
    have hweight := hbegins.mode.2
    have hmode := (hbegins.child_gas (hm.top hbegins.mode.1)).2.1
    dsimp only
    rw [hmode, hweight, List.length_cons]
    change _ + 2 + _ < _
    omega
  | resume hbegins hresumes =>
    have hweight := hbegins.mode.2
    dsimp only
    rw [hresumes.mode, hweight]
    change _ + 2 + _ < _
    omega
  -- one frame less waits, which outweighs that a frame runs where one had ended
  | pop hleaves hresumes =>
    obtain ⟨exit, hexit⟩ := hleaves.mode
    dsimp only
    rw [hresumes.mode, hexit, List.length_cons]
    change _ + 2 + _ < _ + 1 + _
    omega

end Iterates

/-! ### Runs -/

namespace Machine

/-- The loop of the machine, with no bound on its iterations: it ends with `r` after `n` of them. -/
inductive EndsIn (ctx : Context) : Nat → Machine → EStateM.Result Fault Machine Outcome → Prop
  | outcome {m m' : Machine} {o : Outcome} : iterate ctx m = .ok (some o) m' →
      EndsIn ctx 1 m (.ok o m')
  | fault {m m' : Machine} {e : Fault} : iterate ctx m = .error e m' → EndsIn ctx 1 m (.error e m')
  | next {m m₁ : Machine} {r : EStateM.Result Fault Machine Outcome} {n : Nat} :
      iterate ctx m = .ok none m₁ → EndsIn ctx n m₁ r → EndsIn ctx (n + 1) m r

variable {ctx : Context} {m m' : Machine} {o : Outcome}

/-- A bound that is not reached makes no difference. -/
theorem run_of_endsIn {n k : Nat} {r : EStateM.Result Fault Machine Outcome} (h : EndsIn ctx n m r)
    (hk : n ≤ k) : run ctx k m = r := by
  -- on the way to the end, which the bound leaves room for
  induction h generalizing k with
  | outcome hiterate =>
    obtain ⟨k, rfl⟩ := Nat.exists_eq_add_of_le' hk
    rw [run, hiterate]
  | fault hiterate =>
    obtain ⟨k, rfl⟩ := Nat.exists_eq_add_of_le' hk
    rw [run, hiterate]
  | next hiterate _ ih =>
    cases k with
    | zero => exact absurd hk (Nat.not_succ_le_zero _)
    | succ k =>
      rw [run, hiterate]
      exact ih (Nat.le_of_succ_le_succ hk)

/-- The last frame that is left gives back no more than the budget. -/
theorem NonNegative.last (hm : m.NonNegative) (h : iterate ctx m = .ok (some o) m') :
    0 ≤ o.gasLeft ∧ o.gasLeft ≤ m.totalGas := by
  rcases iterate_cases h with ⟨ho, -⟩ | ⟨o', ho, hwaiting, hleaves⟩
  · cases ho
  · cases ho
    have hwithin := hleaves.within hm.gas
    obtain ⟨exit, hexit⟩ := hleaves.mode
    refine ⟨hwithin.nonneg, ?_⟩
    rw [Machine.totalGas, hwaiting, Frame.pendingGas_of_exited hexit]
    change o.gasLeft ≤ m.top.gas + 0 + 0
    have hle := hwithin.le
    omega

/-- **The invariant**, in a run. -/
theorem RunsAbove.nonNegative (h : RunsAbove ctx 0 m m') (hctx : ctx.NonNegative)
    (hm : m.NonNegative) : m'.NonNegative := by
  -- by induction on the run, an iteration at a time
  induction h with
  | refl => exact hm
  | tail _ hiterate ih => exact (iterates_of_iterate hiterate.1).nonNegative hctx ih

/-- **Every execution ends.** The measure bounds the number of iterations, and what is
given back is within the budget. -/
theorem NonNegative.endsIn (hctx : ctx.NonNegative) (hm : m.NonNegative) :
    ∃ n r, n ≤ m.measure ∧ EndsIn ctx n m r ∧
      ∀ o m', r = .ok o m' → 0 ≤ o.gasLeft ∧ o.gasLeft ≤ m.totalGas := by
  -- by induction on a bound of the measure, one iteration at a time
  induction hk : m.measure using Nat.strong_induction_on generalizing m with
  | _ k ih =>
    subst hk
    have hpositive : 1 ≤ m.measure := by
      have hweight : 1 ≤ m.top.mode.weight := m.top.mode.weight_bounds.1
      unfold measure
      omega
    cases hiterate : iterate ctx m with
    | error e m₁ =>
      refine ⟨1, .error e m₁, hpositive, .fault hiterate, fun o m' hr => ?_⟩
      cases hr
    | ok o? m₁ =>
      cases o? with
      | some o =>
        refine ⟨1, .ok o m₁, hpositive, .outcome hiterate, fun o' m' hr => ?_⟩
        cases hr
        exact hm.last hiterate
      | none =>
        have hiterates := iterates_of_iterate hiterate
        have hlt := hiterates.measure_lt hctx hm
        obtain ⟨n, r, hn, hends, hleft⟩ := ih m₁.measure hlt (hiterates.nonNegative hctx hm) rfl
        refine ⟨n + 1, r, by omega, .next hiterate hends, fun o m' hr => ?_⟩
        obtain ⟨hnonneg, hle⟩ := hleft o m' hr
        exact ⟨hnonneg, hle.trans (hiterates.totalGas_le hctx hm)⟩

/-- The machine that an execution starts with. -/
def start (entry : Frame) (s : State) : Machine := { top := entry, state := s }

/-- The budget of an execution is what its frame is entered with. -/
theorem start_totalGas (entry : Frame) (s : State) :
    (start entry s).totalGas = entry.gas + entry.pendingGas :=
  Int.add_zero _

/-- An execution starts without negative numbers if its frame and the accounts hold none. -/
theorem start_nonNegative {entry : Frame} {s : State} (hentry : entry.NonNegative)
    (hs : s.view.NonNegative) : (start entry s).NonNegative where
  gas := hentry.gas
  top _ := hentry
  waiting _ hf := absurd hf List.not_mem_nil
  nested := ⟨s, hs, [], rfl, .root (Std.Refl.refl s)⟩

end Machine

/-- **Gas is a decreasing budget, and every execution ends.** Let nothing that an execution starts
from hold a negative number. Wherever it comes to, no frame has negative gas, no iteration raises
the budget, a step that does not end its frame lowers it, and the last frame gives back no more than
what is left of it. Therefore the loop ends, after a number of iterations that is linear in the gas,
and gives back no more gas than it was entered with. The bound on the iterations of `execute` makes
no difference, unless the frame that it is entered with has already taken gas for a callee. -/
theorem gas_is_a_decreasing_budget {ctx : Context} {entry : Frame} {s : State}
    (hctx : ctx.NonNegative) (hentry : entry.NonNegative) (hs : s.view.NonNegative) :
    (∀ m, Machine.RunsAbove ctx 0 (.start entry s) m →
      (∀ f ∈ m.top :: m.waiting, 0 ≤ f.gas) ∧
      (∀ m', m.iterate ctx = .ok none m' → m'.totalGas ≤ m.totalGas ∧
        (m.top.mode = .running → m'.top.Active → m'.totalGas + 1 ≤ m.totalGas)) ∧
      (∀ o m', m.iterate ctx = .ok (some o) m' → 0 ≤ o.gasLeft ∧ o.gasLeft ≤ m.totalGas)) ∧
    (∃ n r, n ≤ 4 * (entry.gas + entry.pendingGas).toNat + 5 ∧
      Machine.EndsIn ctx n (.start entry s) r ∧
      (∀ o m', r = .ok o m' → 0 ≤ o.gasLeft ∧ o.gasLeft ≤ entry.gas + entry.pendingGas) ∧
      (entry.pendingGas = 0 → execute ctx entry s = r)) := by
  have hstart := Machine.start_nonNegative hentry hs
  constructor
  · intro m hruns
    have hm : m.NonNegative := hruns.nonNegative hctx hstart
    refine ⟨?_, fun m' hiterate => ?_, fun o m' hiterate => hm.last hiterate⟩
    · exact List.forall_mem_cons.mpr ⟨hm.gas, fun f hf => (hm.waiting f hf).gas⟩
    · have hiterates := Machine.iterates_of_iterate hiterate
      exact ⟨hiterates.totalGas_le hctx hm, hiterates.totalGas_lt hctx hm⟩
  · obtain ⟨n, r, hn, hends, hleft⟩ := hstart.endsIn hctx
    rw [Machine.start_totalGas] at hleft
    have hbound : n ≤ 4 * (entry.gas + entry.pendingGas).toNat + 5 := by
      have hweight : entry.mode.weight ≤ 5 := entry.mode.weight_bounds.2
      rw [Machine.measure, Machine.start_totalGas] at hn
      change n ≤ 4 * (entry.gas + entry.pendingGas).toNat + entry.mode.weight + 2 * 0 at hn
      omega
    refine ⟨n, r, hbound, hends, hleft, fun hpending => ?_⟩
    -- with nothing pending the allowance covers the rest of the bound
    rw [hpending, Int.add_zero] at hbound
    have hallowance : 5 ≤ iterationAllowance := by decide
    have hiterations : n ≤ iterationBound entry.gas := by
      rw [iterationBound]
      omega
    exact Machine.run_of_endsIn hends hiterations

/-- A contract that calls itself with all of its gas and its last coin, over and over, until the
stipend is all that is left. -/
theorem endless_recursion_ends :
    let code : ByteArray := ⟨#[0x60, 0, 0x60, 0, 0x60, 0, 0x60, 0, 0x60, 1, 0x30, 0x5a, 0xf1]⟩
    let account : Account := { balance := 1, code, storage := Storage.write ∅ 0 7 }
    let source : Source := { accounts := (∅ : Std.ExtTreeMap Address Account).insert 1 account }
    let s : State := (State.ofSource source).opened
    let entry : Frame :=
      { message := { self := 1, caller := 2, codeAddress := 1, code := Code.ofBytes code },
        gas := 40000 }
    ({} : Context).NonNegative ∧ entry.NonNegative ∧ s.view.NonNegative ∧
    ∃ n o m, n ≤ 160005 ∧ Machine.EndsIn {} n (.start entry s) (.ok o m) ∧ o.exit = .halted ∧
      o.gasLeft ≤ 40000 := by
  intro code account source s entry
  have hctx : ({} : Context).NonNegative := Context.nonNegative_default
  have hentry : entry.NonNegative := .of_fresh (by decide) le_rfl rfl rfl rfl
  have hs : s.view.NonNegative := by
    have hshown : ∀ a, s.view.account a = if 1 = a then some account else none := by
      intro a
      change (State.ofSource source).world.shown a = _
      rw [World.shown_ofSource, Std.ExtTreeMap.getElem?_insert, Std.ExtTreeMap.getElem?_empty]
      simp only [Std.compare_eq_iff_eq]
    refine ⟨fun a holder h => ?_, fun a key => ?_⟩
    · rw [hshown] at h
      split at h
      · cases h
        exact Int.one_nonneg
      · cases h
    · rw [View.get, hshown]
      split
      · change 0 ≤ (Storage.write ∅ 0 7).read key
        rw [Storage.read_write]
        split
        · decide
        · exact le_rfl
      · exact le_rfl
  refine ⟨hctx, hentry, hs, ?_⟩
  obtain ⟨-, n, r, hn, hends, hleft, hexecute⟩ := gas_is_a_decreasing_budget hctx hentry hs
  have hhalts : endsWith (fun o _ => decide (o.exit = .halted)) (execute {} entry s) = true := by
    decide +kernel
  rw [hexecute rfl] at hhalts
  obtain ⟨o, m, rfl, hexit⟩ := endsWith_iff.mp hhalts
  rw [decide_eq_true_eq] at hexit
  exact ⟨n, o, m, hn, hends, hexit, (hleft o m rfl).2⟩

end EvmCore
