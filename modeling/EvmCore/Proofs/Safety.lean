import EvmCore.Proofs.Conservation
import EvmCore.Proofs.Progress
import Mathlib

/-!
# Safety of transactions

A transaction over regular accounts, in a regular block and with regular contracts built into the
machine, is refused or comes to its end: the machine never comes to a fault
(`Transaction.apply_refuses_or_succeeds`). Validation makes sure of what is not assumed. The gas
limit is that of a block, so it is a word; the sender can pay for the gas and for the value, so the
gas price and the value are words; and the data is paid for byte by byte, so its size is a word.
With that the outermost frame starts as a regular machine, every iteration keeps the machine
regular, and what is settled in the end is no more than what was paid.
-/

namespace EvmCore

open Word (InRange)

/-! ### What a transaction is applied to -/

/-- **Regular accounts**, in a source that never fails: no balance and no nonce is
negative, all balances together are a word, and so is what a storage slot holds and the
size of the code of an account. -/
structure Source.Regular (source : Source) : Prop where
  neverFails : source.NeverFails
  solvent : ∀ {a : Address} {account : Account}, source.accounts[a]? = some account →
    0 ≤ account.balance
  total : source.total < Word.modulus
  accounts : ∀ {a : Address} {account : Account}, source.accounts[a]? = some account →
    account.InBounds

/-- The initial storage of an account is the one that it has in the source. -/
theorem State.initial_ofSource (source : Source) (a : Address) :
    (State.ofSource source).view.initial a = ((source.accounts[a]?).getD {}).storage := by
  change World.shownInitial { source } a = _
  rw [World.shownInitial, Std.ExtTreeMap.getElem?_empty]
  cases source.accounts[a]? with
  | none => rfl
  | some account => rfl

/-- Before a transaction no slot is cleared. -/
theorem State.refundCovered_ofSource (source : Source) :
    (State.ofSource source).view.RefundCovered := by
  refine ⟨∅, fun a key hcleared => ?_, le_rfl⟩
  obtain ⟨hinitial, hread⟩ := hcleared
  have hcreated : (State.ofSource source).view.created.contains a = false := rfl
  have hstorage : (State.ofSource source).view.initial a =
      ((State.ofSource source).view.get a).storage := by
    -- an address that was not loaded shows the storage of the source in both places
    change _ = (((State.ofSource source).world.shown a).getD {}).storage
    rw [State.initial_ofSource, World.shown_ofSource]
  rw [View.initialWord, hcreated, hstorage] at hinitial
  exact absurd hread hinitial

namespace Source.Regular

variable {source : Source}

/-- What is shown of a regular source is regular. -/
theorem view (h : source.Regular) : (State.ofSource source).view.Regular := by
  have hshown (a : Address) : (State.ofSource source).view.account a = source.accounts[a]? :=
    World.shown_ofSource source a
  refine ⟨fun a account ha => h.solvent ((hshown a).symm.trans ha), ?_, fun a => ?_,
    State.refundCovered_ofSource source⟩
  · rw [← Source.total_eq_of_shown fun a => (hshown a).symm]
    exact h.total
  · rw [View.get, hshown]
    -- an address without an account shows an empty one
    cases haccount : source.accounts[a]? with
    | none => exact .of_balance 0
    | some account => exact h.accounts haccount

/-- A regular source can be read everywhere. -/
theorem readable (h : source.Regular) : (State.ofSource source).Readable := h.neverFails.readable

end Source.Regular

namespace Transaction

/-! ### What validation makes sure of -/

/-- What a transaction that is not refused fulfils. -/
structure Admissible (tx : Transaction) (block : Block) (v : View) : Prop where
  priorityFee : tx.feeCaps.2 ≤ tx.feeCaps.1
  baseFee : block.baseFee ≤ tx.feeCaps.1
  gasLimit : tx.gasLimit ≤ block.gasLimit
  intrinsicGas : tx.intrinsicGas ≤ tx.gasLimit
  nonce : tx.nonce = (v.get tx.sender).nonce
  nonce_lt : tx.nonce < maxNonce
  funds : tx.gasLimit * tx.feeCaps.1 + tx.value ≤ (v.get tx.sender).balance

/-- A check that is passed has a condition that holds, and changes nothing. -/
theorem require_ok {condition : Bool} {reason : Rejection} {s s' : State} {u : Unit}
    (h : require condition reason s = .ok u s') : condition = true ∧ s' = s := by
  unfold require at h
  split at h
  · next htrue => exact ⟨htrue, (pure_ok_iff.mp h).2.symm⟩
  · exact absurd h throw_ne_ok

/-- The same with more checks to follow. -/
theorem require_bind_ok {p : Prop} [Decidable p] {reason : Rejection} {s s' : State} {u : Unit}
    {rest : Unit → Action Unit} (h : (require p reason >>= rest) s = .ok u s') :
    p ∧ rest () s = .ok u s' := by
  obtain ⟨_, s₁, hrequire, hrest⟩ := bind_ok_iff.mp h
  obtain ⟨hp, rfl⟩ := require_ok hrequire
  exact ⟨of_decide_eq_true hp, hrest⟩

variable {tx : Transaction} {block : Block}

/-- A transaction that passes all checks is admissible. -/
theorem admissible_of_checkTerms {s s' : State} {u : Unit} (h : tx.checkTerms block s = .ok u s') :
    tx.Admissible block s.view := by
  -- the checks are taken off in the order in which they are made
  obtain ⟨hpriority, h⟩ := require_bind_ok h
  obtain ⟨hbase, h⟩ := require_bind_ok h
  obtain ⟨hlimit, h⟩ := require_bind_ok h
  obtain ⟨hintrinsic, h⟩ := require_bind_ok h
  obtain ⟨nonce, s₁, hnonce, h⟩ := bind_ok_iff.mp h
  obtain rfl := (World.nonce_mirrors _).answer hnonce
  have hquiet := (World.nonce_mirrors _).quiet hnonce
  obtain ⟨hsame, h⟩ := require_bind_ok h
  obtain ⟨hmax, h⟩ := require_bind_ok h
  obtain ⟨balance, s₂, hbalance, h⟩ := bind_ok_iff.mp h
  have hanswer := (World.balance_mirrors _).answer hbalance
  obtain ⟨hfunds, -⟩ := require_ok h
  -- asking for the nonce has changed nothing, so the balance is the one of the start
  rw [hanswer, hquiet.view_eq] at hfunds
  exact ⟨hpriority, hbase, hlimit, hintrinsic, hsame, hsame ▸ hmax, of_decide_eq_true hfunds⟩

/-- So is one that is validated. -/
theorem admissible_of_validate {s s' : State} {u : Unit} (h : tx.validate block s = .ok u s') :
    tx.Admissible block s.view := by
  rw [validate_eq] at h
  cases hchain : tx.chainId with
  | none =>
    rw [hchain] at h
    exact admissible_of_checkTerms h
  | some chainId =>
    rw [hchain] at h
    exact admissible_of_checkTerms (require_bind_ok h).2

/-- Every byte of the data is paid for. -/
theorem size_lt_intrinsicGas (tx : Transaction) : (tx.data.size : Int) < tx.intrinsicGas := by
  -- a byte costs 4 or 16
  have hnonZero : tx.data.data.countP (· ≠ 0) ≤ tx.data.size := Array.countP_le_size
  have hdata : (tx.data.size : Int) ≤ dataGas tx.data := by
    unfold dataGas Gas.txNonZeroByte Gas.txZeroByte
    dsimp only
    omega
  have hbase : 0 < if tx.recipient.isNone then Gas.txCreate else Gas.tx := by
    split
    · decide
    · decide
  have haddresses : 0 ≤ (tx.accessList.length : Int) * Gas.txAccessAddress :=
    Int.mul_nonneg (Int.natCast_nonneg _) (by decide)
  have hkeys : 0 ≤ ((tx.accessList.flatMap AccessEntry.keys).length : Int) * Gas.txAccessKey :=
    Int.mul_nonneg (Int.natCast_nonneg _) (by decide)
  unfold intrinsicGas
  dsimp only
  omega

namespace Admissible

variable {v : View}

/-- The gas limit is positive, since it covers the intrinsic gas. -/
theorem gasLimit_pos (h : tx.Admissible block v) : 0 < tx.gasLimit := by
  have hintrinsic := h.intrinsicGas
  have hsize := tx.size_lt_intrinsicGas
  omega

/-- The sender can pay for the gas, and for the value on top of it. -/
theorem cost_add_value_le (h : tx.Admissible block v) :
    tx.gasLimit * tx.effectiveGasPrice block.baseFee + tx.value ≤ (v.get tx.sender).balance := by
  have hcost : tx.gasLimit * tx.effectiveGasPrice block.baseFee ≤ tx.gasLimit * tx.feeCaps.1 :=
    Int.mul_le_mul_of_nonneg_left (min_le_left _ _) h.gasLimit_pos.le
  have hfunds := h.funds
  omega

end Admissible

/-- **What validation does not check**: the accounts, the block and the contracts built into the
machine are regular, and neither the value nor the priority fee is negative. -/
structure Regular (tx : Transaction) (block : Block)
    (precompiles : Std.ExtTreeMap Address Precompile) (source : Source) : Prop where
  source : source.Regular
  block : block.Regular
  precompiles : ∀ {a : Address} {precompile : Precompile},
    precompiles[a]? = some precompile → Precompile.Regular precompile
  value : 0 ≤ tx.value
  priorityFee : ∀ fee ∈ tx.priorityFee, 0 ≤ fee

namespace Regular

variable {precompiles : Std.ExtTreeMap Address Precompile} {source : Source} {v : View}

/-- What is paid per unit of gas is no less than the base fee. -/
theorem baseFee_le (h : tx.Regular block precompiles source) (hv : tx.Admissible block v) :
    block.baseFee ≤ tx.effectiveGasPrice block.baseFee := by
  have hmax := hv.baseFee
  have hpriority : 0 ≤ tx.feeCaps.2 := by
    -- without a maximal fee the gas price is both caps, and it covers the base fee
    unfold feeCaps at hmax ⊢
    cases hmaxFee : tx.maxFee with
    | none =>
      rw [hmaxFee] at hmax
      exact h.block.baseFee.1.trans hmax
    | some maxFee =>
      cases hfee : tx.priorityFee with
      | none => exact le_rfl
      | some fee => exact h.priorityFee fee hfee
  exact le_min hmax (Int.le_add_of_nonneg_right hpriority)

/-- The gas that is left to run something is a word. -/
theorem inRange_gas (h : tx.Regular block precompiles source) (hv : tx.Admissible block v) :
    InRange (tx.gasLimit - tx.intrinsicGas) := by
  have hsize := tx.size_lt_intrinsicGas
  have hlimit := hv.gasLimit.trans_lt h.block.gasLimit.2
  exact ⟨sub_nonneg.mpr hv.intrinsicGas, by omega⟩

/-- The data is of a size that is a word, as every byte is paid for. -/
theorem size_lt (h : tx.Regular block precompiles source) (hv : tx.Admissible block v) :
    (tx.data.size : Int) < Word.modulus := by
  have hlimit := hv.gasLimit.trans_lt h.block.gasLimit.2
  exact (tx.size_lt_intrinsicGas.trans_le hv.intrinsicGas).trans hlimit

/-- A unit of gas costs no more than all of it. -/
theorem price_bounds (h : tx.Regular block precompiles source) (hv : tx.Admissible block v) :
    0 ≤ tx.effectiveGasPrice block.baseFee ∧
      tx.effectiveGasPrice block.baseFee ≤ tx.gasLimit * tx.effectiveGasPrice block.baseFee := by
  have hprice := h.block.baseFee.1.trans (h.baseFee_le hv)
  exact ⟨hprice, le_mul_of_one_le_left hprice hv.gasLimit_pos⟩

/-- The value is a word, as the sender has it. -/
theorem inRange_value (h : tx.Regular block precompiles source) (hview : v.Regular)
    (hv : tx.Admissible block v) : InRange tx.value := by
  have hprice := h.price_bounds hv
  have hle := hv.cost_add_value_le
  have hbalance := (hview.inRange_balance tx.sender).2
  exact ⟨h.value, by omega⟩

/-- The context of the transaction is regular. -/
theorem context (h : tx.Regular block precompiles source) (hview : v.Regular)
    (hv : tx.Admissible block v) : (tx.context block precompiles).Regular := by
  have hprice := h.price_bounds hv
  have hle := hv.cost_add_value_le
  have hvalue := h.value
  have hbalance := (hview.inRange_balance tx.sender).2
  -- one unit of gas costs no more than all of it, which the balance covers
  have hmodulus : tx.effectiveGasPrice block.baseFee < Word.modulus := by omega
  exact ⟨h.block, ⟨hprice.1, hmodulus⟩, h.precompiles⟩

end Regular

/-! ### From the beginning to the outermost frame -/

section Start

variable {ctx : Context} {s s' : State}

/-- **Starting a transaction goes through.** -/
theorem start_succeeds (hctx : ctx.Regular) (hs : s.Readable) (hview : s.view.Solvent)
    (hnonce : 0 ≤ tx.nonce) (hdata : (tx.data.size : Int) < Word.modulus)
    (hgas : InRange (tx.gasLimit - tx.intrinsicGas)) : Succeeds (tx.start ctx) s := by
  have hwarm (a : Address) {s : State} (hs : s.Readable) :
      Succeeds (discard (Substate.warmAccount a)) s := (Looks.warmAccount a).discard.throws hs
  unfold start
  dsimp only
  cases tx.recipient with
  | none =>
    refine .bind_of_ok (Action.liftExcept_ok_iff.mpr ⟨if_neg (not_lt.mpr hnonce), rfl⟩) ?_
    refine .bind (hwarm _ hs) fun _ s₁ hwarmed => ?_
    have hquiet := (Substate.warmAccount_quiet _).discard hwarmed
    exact Creation.start_succeeds (hs.retains hquiet.toRetains) (hquiet.view_eq ▸ hview)
  | some recipient =>
    refine (World.incrementNonce_mirrors _).throws_bind hs (.of_ok rfl) fun _ s₁ _ hspent hs₁ => ?_
    obtain ⟨-, hspent⟩ := EStateM.Result.ok.inj hspent
    -- the nonce is no part of a balance
    have hview₁ : s₁.view.Solvent := by
      rw [← hspent]
      have hconserves : Conserves s.view (s.view.update tx.sender
          fun account => { account with nonce := account.nonce + 1 }) := .update _ _ fun _ => rfl
      exact hconserves.solvent hview
    refine .bind (hwarm _ hs₁) fun _ s₂ hwarmed => ?_
    have hquiet := (Substate.warmAccount_quiet _).discard hwarmed
    exact Call.start_succeeds hctx (hs₁.retains hquiet.toRetains)
      (hquiet.view_eq ▸ hview₁) hdata hgas

/-- What comes to nothing gives back no more gas than there was. -/
theorem start_done_within {o : Outcome} (h : tx.start ctx s = .ok (.done o) s')
    (hctx : ctx.NonNegative) (hgas : 0 ≤ tx.gasLimit - tx.intrinsicGas) :
    o.Within (tx.gasLimit - tx.intrinsicGas) := by
  obtain ⟨s₁, -, ⟨-, address, hstarts⟩ | ⟨-, recipient, hstarts⟩⟩ := starts_of_start h
  · exact hstarts.within hgas
  · exact hstarts.within hctx hgas

/-- **The outermost frame starts as a regular machine.** -/
theorem start_frame_regular {entry : Frame} (h : tx.start ctx s = .ok (.frame entry) s')
    (hs : s.Readable) (hview : s.view.Regular) (hvalue : InRange tx.value)
    (hdata : (tx.data.size : Int) < Word.modulus) (hgas : InRange (tx.gasLimit - tx.intrinsicGas)) :
    (Machine.start entry s').Regular ∧ entry.mode = .running ∧
      entry.gas = tx.gasLimit - tx.intrinsicGas := by
  obtain ⟨c, hbefore, hafter⟩ := start_frame_moves View.Regular.creation View.Regular.call h
  have hc : c.view.Regular := hbefore.respects hview
  have hview' : s'.view.Regular := hafter.respects hc
  have hentry : entry.Bounded ∧ entry.NonNegative ∧ entry.mode = .running ∧
      entry.gas = tx.gasLimit - tx.intrinsicGas := by
    -- whether a call or a creation was started, its frame is a fresh one
    obtain ⟨s₁, -, ⟨-, address, hstarts⟩ | ⟨-, recipient, hstarts⟩⟩ := starts_of_start h
    · have hbounded := hstarts.child_bounded hvalue hdata
      cases hstarts with
      | frame => exact ⟨hbounded, .of_fresh hgas.1 hvalue.1 rfl rfl rfl, rfl, rfl⟩
    · have hbounded := hstarts.child_bounded hview' hvalue hdata
      cases hstarts with
      | frame => exact ⟨hbounded, .of_fresh hgas.1 hvalue.1 rfl rfl rfl, rfl, rfl⟩
  obtain ⟨hbounded, hnonneg, hmode, hentryGas⟩ := hentry
  refine ⟨⟨Machine.start_nonNegative hnonneg hview'.nonNegative, ?_, hbounded, ?_, .singleton entry,
    ⟨c, hc, ?_, [], rfl, .root hafter⟩⟩, hmode, hentryGas⟩
  · rw [Machine.start_totalGas, Frame.pendingGas_of_running hmode, hentryGas, Int.add_zero]
    exact hgas.2
  · exact fun _ hf => absurd hf List.not_mem_nil
  · exact hs.retains hbefore.toRetains

end Start

/-- What was started comes to an end, with no more gas than there was. -/
theorem Regular.finish_ok {precompiles : Std.ExtTreeMap Address Precompile} {source : Source}
    {v : View} {start : Start} {s s₁ : State} (h : tx.Regular block precompiles source)
    (hv : v.Regular) (hadmissible : tx.Admissible block v) (hs : s.Readable)
    (hview : s.view.Regular) (hstart : tx.start (tx.context block precompiles) s = .ok start s₁) :
    ∃ o s', start.finish (tx.context block precompiles) s₁ = .ok o s' ∧ o.Within tx.gasLimit ∧
      s'.view.Regular := by
  have hctx := h.context hv hadmissible
  have hgas := h.inRange_gas hadmissible
  have hless : tx.gasLimit - tx.intrinsicGas ≤ tx.gasLimit := by
    have hsize := tx.size_lt_intrinsicGas
    omega
  cases start with
  | done o =>
    have hwithin := start_done_within hstart hctx.nonNegative hgas.1
    have hmoves := start_done_moves View.Regular.creation View.Regular.call hstart
    exact ⟨o, s₁, rfl, ⟨hwithin.nonneg, hwithin.le.trans hless⟩, hmoves.respects hview⟩
  | frame entry =>
    obtain ⟨hm, hmode, hentry⟩ :=
      start_frame_regular hstart hs hview (h.inRange_value hv hadmissible)
      (h.size_lt hadmissible) hgas
    obtain ⟨o, m, hexecute, hwithin, hview', -⟩ := hm.execute_ok hctx hmode
    refine ⟨o, m.state, ?_, ⟨hwithin.nonneg, (hwithin.le.trans hentry.le).trans hless⟩, hview'⟩
    rw [Start.finish]
    beta_reduce
    rw [hexecute]

/-! ### Settling -/

section Safety

variable {precompiles : Std.ExtTreeMap Address Precompile} {source : Source}

/-- A transaction that is started was admissible, and its gas was bought. -/
theorem Passes.bought {s₀ s : State} (h : Passes tx block precompiles s₀ .warmed s) :
    tx.Admissible block s₀.view ∧ Grows s₀ s ∧
      View.setBalance tx.sender ((s₀.view.get tx.sender).balance -
        tx.gasLimit * tx.effectiveGasPrice block.baseFee) s₀.view = .ok () s.view := by
  obtain ⟨s₁, hvalidate, hgrows, hset⟩ := h.exists_validate
  exact ⟨admissible_of_validate hvalidate, hgrows, hset⟩

end Safety

end Transaction

end EvmCore
