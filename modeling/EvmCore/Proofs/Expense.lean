import EvmCore.Proofs.Safety
import Mathlib

/-!
# What the execution of a transaction costs

An execution is handed the gas limit of its transaction less what the transaction costs
before anything runs. Validation does not look at the signs of the numbers that a transaction
is applied with, and a negative one can make an instruction give gas back. If none is
negative (`Transaction.NonNegative`), what comes back in the end is between zero and what was
handed over (`Transaction.Passes.ended_within`), so the transaction has used at least its
intrinsic gas and at most its limit.
-/

namespace EvmCore

namespace Transaction

/-- **Nothing is negative** that a transaction is applied with: neither its value nor its fees, nor
a number of the block, nor a balance or a word of storage in the source, nor the price of a contract
that is built into the machine. -/
structure NonNegative (tx : Transaction) (block : Block)
    (precompiles : Std.ExtTreeMap Address Precompile) (source : Source) : Prop where
  value : 0 ≤ tx.value
  gasPrice : 0 ≤ tx.gasPrice
  maxFee : ∀ {fee : Int}, tx.maxFee = some fee → 0 ≤ fee
  priorityFee : ∀ {fee : Int}, tx.priorityFee = some fee → 0 ≤ fee
  gasLimit : 0 ≤ block.gasLimit
  number : 0 ≤ block.number
  time : 0 ≤ block.time
  difficulty : 0 ≤ block.difficulty
  baseFee : 0 ≤ block.baseFee
  chainId : 0 ≤ block.chainId
  cost : ∀ {a : Address} {precompile : Precompile} {input output : ByteArray} {gas cost : Int},
    precompiles[a]? = some precompile → precompile input gas = .ok (output, cost) → 0 ≤ cost
  accounts : ∀ {a : Address} {account : Account}, source.accounts[a]? = some account →
    account.NonNegative

namespace NonNegative

variable {tx : Transaction} {block : Block} {precompiles : Std.ExtTreeMap Address Precompile}
  {source : Source}

/-- What the sender has agreed to pay is not negative. -/
theorem feeCaps (h : tx.NonNegative block precompiles source) :
    0 ≤ tx.feeCaps.1 ∧ 0 ≤ tx.feeCaps.2 := by
  rw [Transaction.feeCaps]
  -- a transaction that names no maximum pays its gas price
  cases hmaxFee : tx.maxFee with
  | none => exact ⟨h.gasPrice, h.gasPrice⟩
  | some maxFee =>
    refine ⟨h.maxFee hmaxFee, ?_⟩
    cases hpriorityFee : tx.priorityFee with
    | none => exact le_rfl
    | some priorityFee => exact h.priorityFee hpriorityFee

/-- What is paid per unit of gas is no less than the base fee. -/
theorem baseFee_le {v : View} (h : tx.NonNegative block precompiles source)
    (hv : tx.Admissible block v) :
    block.baseFee ≤ tx.effectiveGasPrice block.baseFee :=
  le_min hv.baseFee (le_add_of_nonneg_right h.feeCaps.2)

/-- The context of the transaction holds no negative number. -/
theorem context (h : tx.NonNegative block precompiles source) :
    (tx.context block precompiles).NonNegative where
  gasPrice := le_min h.feeCaps.1 (Int.add_nonneg h.baseFee h.feeCaps.2)
  gasLimit := h.gasLimit
  number := h.number
  time := h.time
  difficulty := h.difficulty
  baseFee := h.baseFee
  chainId := h.chainId
  cost := h.cost

/-- Nor do the accounts that it starts from. -/
theorem view (h : tx.NonNegative block precompiles source) :
    (State.ofSource source).view.NonNegative := by
  have hget (a : Address) : ((State.ofSource source).view.get a).NonNegative := by
    change (((State.ofSource source).world.shown a).getD {}).NonNegative
    rw [World.shown_ofSource]
    -- where there is no account, nothing is held
    cases haccount : source.accounts[a]? with
    | none => exact ⟨le_rfl, fun _ => le_rfl⟩
    | some account => exact h.accounts haccount
  exact ⟨View.solvent_of_get fun a => (hget a).balance, fun a => (hget a).storage⟩

end NonNegative

section Passing

variable {tx : Transaction} {block : Block} {precompiles : Std.ExtTreeMap Address Precompile}
  {s₀ s s' : State} {source : Source} {o : Outcome} {r : Receipt}

/-- What the receipt of a transaction takes from the end of the outermost frame. -/
theorem Settles.receipt (h : Settles tx block o s r s') :
    r.status = .ofExit o.exit ∧ r.failure = o.exit.failure? ∧ r.created = o.created ∧
      r.gasUsed = tx.gasUsed o s.substate.refund ∧
      r.refund = refundOf s.substate.refund (tx.gasSpent o) := by
  cases h with
  | phases => exact ⟨rfl, rfl, rfl, rfl, rfl⟩

/-! ### The budget of a transaction -/

/-- A creation leaves no negative number where there was none. -/
theorem creation_preserves (c : Creation) (v : View) : c.Respects View.Preserves v where
  spendNonce := .of_accountWise (Account.NonNegative.allows.spendNonce c v)
  enter _ hfunded hfree hentered :=
    .of_accountWise ((Account.NonNegative.allows.creation c v).enter hfunded hfree hentered)

/-- Nor does a call. -/
theorem call_preserves (c : Call) (v : View) : c.Respects View.Preserves v :=
  fun _ _ hmoved => .of_accountWise (Account.NonNegative.allows.payable.moveValue c hmoved)

/-- The outermost frame starts without a negative number, and with the gas that is left for it. -/
theorem start_frame_nonNegative {ctx : Context} {entry : Frame}
    (h : tx.start ctx s = .ok (.frame entry) s') (hs : s.view.NonNegative) (hvalue : 0 ≤ tx.value)
    (hgas : 0 ≤ tx.gasLimit - tx.intrinsicGas) :
    (Machine.start entry s').NonNegative ∧
      (Machine.start entry s').totalGas = tx.gasLimit - tx.intrinsicGas := by
  obtain ⟨c, hbefore, hafter⟩ := start_frame_moves creation_preserves call_preserves h
  have hs' : s'.view.NonNegative := hafter.respects (hbefore.respects hs)
  -- a fresh frame has no words yet, so all that matters is its gas and the value
  have hentry : entry.NonNegative ∧ entry.mode = .running ∧
      entry.gas = tx.gasLimit - tx.intrinsicGas := by
    obtain ⟨s₁, -, ⟨-, address, hstarts⟩ | ⟨-, recipient, hstarts⟩⟩ := starts_of_start h
    · cases hstarts with
      | frame => exact ⟨.of_fresh hgas hvalue rfl rfl rfl, rfl, rfl⟩
    · cases hstarts with
      | frame => exact ⟨.of_fresh hgas hvalue rfl rfl rfl, rfl, rfl⟩
  obtain ⟨hnonNegative, hmode, hentryGas⟩ := hentry
  refine ⟨Machine.start_nonNegative hnonNegative hs', ?_⟩
  rw [Machine.start_totalGas, Frame.pendingGas_of_running hmode, hentryGas, Int.add_zero]

/-- While a transaction runs, its frames hold no more gas than was handed over. -/
theorem Passes.running_nonNegative {m : Machine}
    (hpasses : Passes tx block precompiles (.ofSource source) (.running m) s)
    (h : tx.NonNegative block precompiles source) :
    m.NonNegative ∧ m.totalGas ≤ tx.gasLimit - tx.intrinsicGas := by
  refine (hpasses.running_induction
    (P := fun m => m.NonNegative ∧ m.totalGas ≤ tx.gasLimit - tx.intrinsicGas)
    (fun hwarmed hstart => ?_) fun _ hm hiterate => ?_).1
  · -- buying the gas leaves a balance, since it was validated
    obtain ⟨hadmissible, -, hbought⟩ := hwarmed.bought
    have hview := View.Preserves.of_accountWise
      (Account.NonNegative.allows.payable.setBalance _ _ hbought) h.view
    obtain ⟨hm, htotal⟩ :=
      start_frame_nonNegative hstart hview h.value (sub_nonneg.mpr hadmissible.intrinsicGas)
    exact ⟨hm, htotal.le⟩
  · -- frames hand gas to each other, and spend it
    have hiterates := Machine.iterates_of_iterate hiterate
    exact ⟨hiterates.nonNegative h.context hm.1, (hiterates.totalGas_le h.context hm.1).trans hm.2⟩

/-- **The execution of a transaction gives back no more gas than was handed over.** -/
theorem Passes.ended_within (hpasses : Passes tx block precompiles (.ofSource source) (.ended o) s)
    (h : tx.NonNegative block precompiles source) : o.Within (tx.gasLimit - tx.intrinsicGas) := by
  cases hpasses with
  | skip hwarmed hstart =>
    obtain ⟨hadmissible, -⟩ := hwarmed.bought
    exact start_done_within hstart h.context (sub_nonneg.mpr hadmissible.intrinsicGas)
  | finish hrunning hiterate =>
    obtain ⟨hm, hle⟩ := hrunning.running_nonNegative h
    obtain ⟨hnonneg, hgas⟩ := hm.last hiterate
    exact ⟨hnonneg, hgas.trans hle⟩

end Passing

end Transaction

end EvmCore
