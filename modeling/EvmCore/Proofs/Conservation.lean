import EvmCore.Transaction
import EvmCore.Proofs.Value
import Mathlib

/-!
# Conservation of value

A transaction moves money in many places: gas is bought, value is transferred by calls and
creations, contracts destroy themselves, unused gas is given back, the fee is paid, accounts are
removed. The theorem of this module says that all of that neither mints nor loses anything, save for
the base fee, which is burnt, and for what contracts that destroyed themselves still held.

`Transaction.Passes` lists the points that applying a transaction passes, one rule for each thing
that is done between two points; an execution passes one point per iteration of the machine.
`Balanced s₀ d s` is the invariant at a point: compared with the beginning, the total has changed by
the known amount `d`, or has fallen short of that while some contract is to be deleted. Every rule
keeps it, for the amount of its point.
-/

namespace EvmCore

/-! ### The value that a source holds -/

namespace Source

/-- The sum of the balances of all accounts. -/
def total (source : Source) : Int := (source.accounts.toList.map fun entry => entry.2.balance).sum

/-- The total of a source, as a sum over all addresses. -/
theorem total_eq_sum (source : Source) :
    source.total = ∑ a : Address, ((source.accounts[a]?).getD {}).balance := by
  let keys := source.accounts.toList.map Prod.fst
  let balanceAt (a : Address) : Int := ((source.accounts[a]?).getD {}).balance
  -- the keys are those of a map, so none comes twice
  have hnodup : keys.Nodup := by
    refine List.Pairwise.map _ (fun p q h => ?_) source.accounts.distinct_keys_toList
    rwa [Std.compare_eq_iff_eq] at h
  -- at an address that is no key there is no account, and nothing is held there
  have houtside : ∀ a ∉ keys.toFinset, balanceAt a = 0 := by
    intro a ha
    have hnone : source.accounts[a]? = none := by
      refine Option.eq_none_iff_forall_ne_some.mpr fun account haccount => ha ?_
      rw [List.mem_toFinset, List.mem_map]
      exact ⟨(a, account), Std.ExtTreeMap.mem_toList_iff_getElem?_eq_some.mpr haccount, rfl⟩
    change ((source.accounts[a]?).getD {}).balance = 0
    rw [hnone]
    rfl
  have hentries : source.accounts.toList.map (fun entry => entry.2.balance) =
      keys.map balanceAt := by
    rw [List.map_map]
    refine List.map_congr_left fun entry hentry => ?_
    change entry.2.balance = ((source.accounts[entry.1]?).getD {}).balance
    rw [Std.ExtTreeMap.mem_toList_iff_getElem?_eq_some.mp hentry]
    rfl
  -- The entries are the addresses that hold something; all others add nothing to the sum.
  calc source.total
      = (keys.map balanceAt).sum := by rw [total, hentries]
    _ = ∑ a ∈ keys.toFinset, balanceAt a := (List.sum_toFinset balanceAt hnodup).symm
    _ = ∑ a : Address, balanceAt a :=
        Finset.sum_subset (Finset.subset_univ _) fun a _ ha => houtside a ha

/-- A source that holds what is shown holds the total that is shown. -/
theorem total_eq_of_shown {source : Source} {v : View}
    (h : ∀ a : Address, source.accounts[a]? = v.account a) :
    source.total = v.total := by
  rw [total_eq_sum]
  refine Finset.sum_congr rfl fun a _ => ?_
  rw [h a]
  rfl

end Source

/-! ### The invariant -/

/-- From `s₀` to `s` the total has changed by `d`, or by less while a contract is to be deleted. -/
structure Balanced (s₀ : State) (d : Int) (s : State) : Prop where
  retains : Retains s₀ s
  marks : s₀.view.Marks s.view
  solvent : s.Solvent
  total_le : s.view.total ≤ s₀.view.total + d
  total_eq : s.view.selfDestructs = ∅ → s.view.total = s₀.view.total + d

namespace Balanced

variable {s₀ base s s' : State} {d x : Int}

theorem refl (h : s₀.Solvent) : Balanced s₀ 0 s₀ :=
  ⟨Retains.refl s₀, View.Marks.refl _, h, (add_zero _).ge, fun _ => (add_zero _).symm⟩

/-- Work that conserves value, on top of other work, with or without layers left open. -/
theorem conserves (h : Balanced s₀ d s) (hretains : Retains s s') (hsolvent : s'.Solvent)
    (hview : Conserves s.view s'.view) : Balanced s₀ d s' where
  retains := h.retains.trans hretains
  marks := h.marks.trans hview.marks
  solvent := hsolvent
  total_le := (hview.total_le h.solvent.view).trans h.total_le
  total_eq hnone := by rw [hview.total_eq hnone, h.total_eq (hview.selfDestructs_eq_empty hnone)]

/-- Work that conserves value, in one layer. -/
theorem moves (h : Balanced s₀ d s) (hmoves : Moves Conserves s s') : Balanced s₀ d s' :=
  h.conserves hmoves.toRetains (hmoves.solvent h.solvent) hmoves.respects

/-- Opening a layer changes no balance. -/
theorem opened (h : Balanced s₀ d s) : Balanced s₀ d s.opened :=
  h.conserves s.opened_retains h.solvent.opened (Conserves.refl s.view)

/-- Work that conserves value, in many layers. -/
theorem layered (h : Balanced s₀ d base) {cs : List State} (hs : Layered Conserves base cs s) :
    Balanced s₀ d s :=
  h.conserves hs.retains (hs.solvent h.solvent) hs.respects

/-- Setting a balance changes the total by the difference. -/
theorem setBalance (h : Balanced s₀ d s) {a : Address} (hgrows : Grows s s')
    (hview : View.setBalance a ((s.view.get a).balance + x) s.view = .ok () s'.view) :
    Balanced s₀ (d + x) s' := by
  have htotal : s'.view.total = s.view.total + x := by
    rw [View.total_setBalance hview]
    ring
  refine ⟨h.retains.trans hgrows.toRetains, h.marks.trans (View.marks_setBalance hview),
    hgrows.solvent h.solvent, ?_, fun hnone => ?_⟩
  · have := h.total_le
    omega
  · have hnone_before : s.view.selfDestructs = ∅ := by
      rw [(View.setBalance_ok hview).2] at hnone
      exact hnone
    rw [htotal, h.total_eq hnone_before, add_assoc]

theorem addBalance (h : Balanced s₀ d s) {a : Address} (hadd : World.addBalance a x s = .ok () s') :
    Balanced s₀ (d + x) s' := by
  obtain ⟨hgrows, hview⟩ := (World.addBalance_mirrors a x).ok hadd
  exact h.setBalance hgrows hview

theorem subBalance (h : Balanced s₀ d s) {a : Address} (hsub : World.subBalance a x s = .ok () s') :
    Balanced s₀ (d - x) s' := by
  obtain ⟨hgrows, hview⟩ := (World.subBalance_mirrors a x).ok hsub
  rw [sub_eq_add_neg] at hview ⊢
  exact h.setBalance hgrows hview

end Balanced

/-! ### The points of a transaction -/

/-- Running what was started to the end is a run of the machine. -/
theorem Start.finish_frame_ok {ctx : Context} {entry : Frame} {s s' : State} {o : Outcome}
    (h : (Start.frame entry).finish ctx s = .ok o s') :
    ∃ k m, Machine.run ctx k { top := entry, state := s } = .ok o m ∧ m.state = s' := by
  rw [Start.finish] at h
  beta_reduce at h
  rw [execute] at h
  -- the bound on the iterations is never to be evaluated
  generalize iterationBound entry.gas = k at h
  cases hrun : Machine.run ctx k { top := entry, state := s } with
  | ok outcome m =>
    rw [hrun] at h
    obtain ⟨rfl, rfl⟩ := EStateM.Result.ok.inj h
    exact ⟨k, m, hrun, rfl⟩
  | error e m =>
    rw [hrun] at h
    cases h

namespace Transaction

/-- What the frames of a transaction run under. -/
def context (tx : Transaction) (block : Block) (precompiles : Std.ExtTreeMap Address Precompile) :
    Context :=
  { block, origin := tx.sender, gasPrice := tx.effectiveGasPrice block.baseFee, precompiles }

/-- The gas that is not given back as unused. -/
def gasSpent (tx : Transaction) (o : Outcome) : Int := tx.gasLimit - o.gasLeft

/-- The gas that is paid for in the end, the refund counter being at `counter`. -/
def gasUsed (tx : Transaction) (o : Outcome) (counter : Int) : Int :=
  tx.gasSpent o - refundOf counter (tx.gasSpent o)

/-- A point that applying a transaction passes, with what was found out by then: the outcome of the
outermost frame, the refund counter when it ended, the contracts that were deleted. -/
inductive Phase where
  | begun
  | validated
  | bought
  | warmed
  | running (m : Machine)
  | ended (o : Outcome)
  | refunded (o : Outcome) (counter : Int)
  | paid (o : Outcome) (counter : Int)
  | touched (o : Outcome) (counter : Int)
  | removed (o : Outcome) (counter : Int) (selfDestructed : List Address)
  | flushed (o : Outcome) (counter : Int) (selfDestructed : List Address)
  | settled (r : Receipt)

/-- The points that applying a transaction to the state `s₀` passes. -/
inductive Passes (tx : Transaction) (block : Block)
    (precompiles : Std.ExtTreeMap Address Precompile) (s₀ : State) : Phase → State → Prop
  | begin : Passes tx block precompiles s₀ .begun s₀
  | validate {s s' : State} : Passes tx block precompiles s₀ .begun s →
      tx.validate block s = .ok () s' → Passes tx block precompiles s₀ .validated s'
  | buy {s s' : State} : Passes tx block precompiles s₀ .validated s →
      World.subBalance tx.sender (tx.gasLimit * tx.effectiveGasPrice block.baseFee) s = .ok () s' →
      Passes tx block precompiles s₀ .bought s'
  | warm {s s' : State} : Passes tx block precompiles s₀ .bought s →
      tx.warmUp (tx.context block precompiles) s = .ok () s' →
      Passes tx block precompiles s₀ .warmed s'
  | enter {s s' : State} {entry : Frame} : Passes tx block precompiles s₀ .warmed s →
      tx.start (tx.context block precompiles) s = .ok (.frame entry) s' →
      Passes tx block precompiles s₀ (.running { top := entry, state := s' }) s'
  | skip {s s' : State} {o : Outcome} : Passes tx block precompiles s₀ .warmed s →
      tx.start (tx.context block precompiles) s = .ok (.done o) s' →
      Passes tx block precompiles s₀ (.ended o) s'
  | iterate {s : State} {m m' : Machine} : Passes tx block precompiles s₀ (.running m) s →
      m.iterate (tx.context block precompiles) = .ok none m' →
      Passes tx block precompiles s₀ (.running m') m'.state
  | finish {s : State} {m m' : Machine} {o : Outcome} :
      Passes tx block precompiles s₀ (.running m) s →
      m.iterate (tx.context block precompiles) = .ok (some o) m' →
      Passes tx block precompiles s₀ (.ended o) m'.state
  | refund {s s' : State} {o : Outcome} : Passes tx block precompiles s₀ (.ended o) s →
      World.addBalance tx.sender ((tx.gasLimit - tx.gasUsed o s.substate.refund) *
        tx.effectiveGasPrice block.baseFee) s = .ok () s' →
      Passes tx block precompiles s₀ (.refunded o s.substate.refund) s'
  | pay {s s' : State} {o : Outcome} {counter : Int} :
      Passes tx block precompiles s₀ (.refunded o counter) s →
      World.addBalance block.coinbase (tx.gasUsed o counter *
        (tx.effectiveGasPrice block.baseFee - block.baseFee)) s = .ok () s' →
      Passes tx block precompiles s₀ (.paid o counter) s'
  | touch {s s' : State} {o : Outcome} {counter : Int} :
      Passes tx block precompiles s₀ (.paid o counter) s →
      Substate.touch block.coinbase s = .ok () s' →
      Passes tx block precompiles s₀ (.touched o counter) s'
  | remove {s s' : State} {o : Outcome} {counter : Int} {selfDestructed : List Address} :
      Passes tx block precompiles s₀ (.touched o counter) s →
      removeAccounts s = .ok selfDestructed s' →
      Passes tx block precompiles s₀ (.removed o counter selfDestructed) s'
  | flush {s s' : State} {o : Outcome} {counter : Int} {selfDestructed : List Address} :
      Passes tx block precompiles s₀ (.removed o counter selfDestructed) s →
      World.flush s = .ok () s' →
      Passes tx block precompiles s₀ (.flushed o counter selfDestructed) s'
  | settle {s s' : State} {o : Outcome} {counter : Int} {selfDestructed : List Address} :
      Passes tx block precompiles s₀ (.flushed o counter selfDestructed) s →
      State.emit (.applied tx.sender tx.nonce (.ofExit o.exit) (tx.gasUsed o counter)
        (refundOf counter (tx.gasSpent o))) s = .ok () s' →
      Passes tx block precompiles s₀
        (.settled
          { status := .ofExit o.exit
            failure := o.exit.failure?
            gasUsed := tx.gasUsed o counter
            refund := refundOf counter (tx.gasSpent o)
            output := o.output
            logs := s'.substate.logs.toList
            created := o.created
            selfDestructed }) s'

/-- **What settling does**, phase by phase, when the outermost frame has ended
with the outcome `o`. -/
inductive Settles (tx : Transaction) (block : Block) (o : Outcome) (s : State) :
    Receipt → State → Prop
  | phases {s₁ s₂ s₃ s₄ s₅ s' : State} {selfDestructed : List Address} :
      World.addBalance tx.sender ((tx.gasLimit - tx.gasUsed o s.substate.refund) *
        tx.effectiveGasPrice block.baseFee) s = .ok () s₁ →
      World.addBalance block.coinbase (tx.gasUsed o s.substate.refund *
        (tx.effectiveGasPrice block.baseFee - block.baseFee)) s₁ = .ok () s₂ →
      Substate.touch block.coinbase s₂ = .ok () s₃ →
      removeAccounts s₃ = .ok selfDestructed s₄ →
      World.flush s₄ = .ok () s₅ →
      State.emit (.applied tx.sender tx.nonce (.ofExit o.exit) (tx.gasUsed o s.substate.refund)
        (refundOf s.substate.refund (tx.gasSpent o))) s₅ = .ok () s' →
      Settles tx block o s
        { status := .ofExit o.exit
          failure := o.exit.failure?
          gasUsed := tx.gasUsed o s.substate.refund
          refund := refundOf s.substate.refund (tx.gasSpent o)
          output := o.output
          logs := s'.substate.logs.toList
          created := o.created
          selfDestructed } s'

section Passing

variable {tx : Transaction} {block : Block} {precompiles : Std.ExtTreeMap Address Precompile}
  {s₀ s s' : State}

/-- What holds where the outermost frame is entered and is kept by iterations holds at every point
at which the machine runs. -/
theorem Passes.running_induction {P : Machine → Prop} {m : Machine}
    (h : Passes tx block precompiles s₀ (.running m) s)
    (henter : ∀ {s s' : State} {entry : Frame}, Passes tx block precompiles s₀ .warmed s →
      tx.start (tx.context block precompiles) s = .ok (.frame entry) s' →
      P { top := entry, state := s' })
    (hiterate : ∀ {m m' : Machine}, Passes tx block precompiles s₀ (.running m) m.state → P m →
      m.iterate (tx.context block precompiles) = .ok none m' → P m') : P m ∧ m.state = s := by
  -- the phase has to be a variable for the induction on the way there
  generalize hphase : Phase.running m = p at h
  induction h generalizing m with
  | enter hwarmed hstart _ =>
    cases hphase
    exact ⟨henter hwarmed hstart, rfl⟩
  | iterate hrunning hnext ih =>
    cases hphase
    obtain ⟨hm, rfl⟩ := ih rfl
    exact ⟨hiterate hrunning hm hnext, rfl⟩
  | _ => cases hphase

/-- A run of the machine passes one point per iteration. -/
theorem Passes.runs {m m' : Machine} {o : Outcome} {k : Nat}
    (h : Passes tx block precompiles s₀ (.running m) s)
    (hrun : Machine.run (tx.context block precompiles) k m = .ok o m') :
    Passes tx block precompiles s₀ (.ended o) m'.state := by
  -- on the bound, with the points up to the machine that is left to run
  induction k generalizing m s with
  | zero => cases hrun
  | succ k ih =>
    rw [Machine.run] at hrun
    cases hiterate : m.iterate (tx.context block precompiles) with
    | error e m₁ =>
      rw [hiterate] at hrun
      cases hrun
    | ok o? m₁ =>
      rw [hiterate] at hrun
      cases o? with
      | some o₁ =>
        cases hrun
        exact h.finish hiterate
      | none => exact ih (h.iterate hiterate) hrun

/-- The machine after the first `n` iterations of a transaction, if there are so many. -/
def runningAt (tx : Transaction) (block : Block) (precompiles : Std.ExtTreeMap Address Precompile)
    (s₀ : State) : Nat → Option Machine
  | 0 =>
    match (do
      tx.validate block
      World.subBalance tx.sender (tx.gasLimit * tx.effectiveGasPrice block.baseFee)
      tx.warmUp (tx.context block precompiles)
      tx.start (tx.context block precompiles) : Action Start) s₀ with
    | .ok (.frame entry) s => some { top := entry, state := s }
    | _ => none
  | n + 1 =>
    match (runningAt tx block precompiles s₀ n).map
      (Machine.iterate (tx.context block precompiles)) with
    | some (.ok none m) => some m
    | _ => none

/-- What is found by running the machine is a point that the transaction passes. -/
theorem passes_of_runningAt {m : Machine} {n : Nat}
    (h : tx.runningAt block precompiles s₀ n = some m) :
    Passes tx block precompiles s₀ (.running m) m.state := by
  induction n generalizing m with
  -- by induction on the iterations
  | zero =>
    rw [runningAt] at h
    split at h
    · next entry s hstart =>
      -- the four actions before the first iteration are the four rules before the machine runs
      obtain ⟨_, s₁, hvalidate, h₁⟩ := bind_ok_iff.mp hstart
      obtain ⟨_, s₂, hbuy, h₂⟩ := bind_ok_iff.mp h₁
      obtain ⟨_, s₃, hwarm, h₃⟩ := bind_ok_iff.mp h₂
      obtain rfl := Option.some.inj h
      exact (((Passes.begin.validate hvalidate).buy hbuy).warm hwarm).enter h₃
    · cases h
  | succ n ih =>
    rw [runningAt] at h
    split at h
    · next m₁ hiterate =>
      obtain ⟨m₀, hm₀, hiterate⟩ := Option.map_eq_some_iff.mp hiterate
      obtain rfl := Option.some.inj h
      exact (ih hm₀).iterate hiterate
    · cases h

/-- Settling goes through its phases in this order. -/
theorem settles_of_settle {o : Outcome} {r : Receipt} (h : tx.settle block o s = .ok r s') :
    Settles tx block o s r s' := by
  rw [settle, get_bind] at h
  obtain ⟨_, s₁, hrefund, h⟩ := bind_ok_iff.mp h
  obtain ⟨_, s₂, hpay, h⟩ := bind_ok_iff.mp h
  obtain ⟨_, s₃, htouch, h⟩ := bind_ok_iff.mp h
  obtain ⟨selfDestructed, s₄, hremove, h⟩ := bind_ok_iff.mp h
  obtain ⟨_, s₅, hflush, h⟩ := bind_ok_iff.mp h
  obtain ⟨_, s₆, hemit, h⟩ := bind_ok_iff.mp h
  rw [get_bind] at h
  obtain ⟨rfl, rfl⟩ := pure_ok_iff.mp h
  exact .phases hrefund hpay htouch hremove hflush hemit

/-- Settling passes the points from the end of the outermost frame on. -/
theorem Passes.settles {o : Outcome} {r : Receipt}
    (h : Passes tx block precompiles s₀ (.ended o) s) (hsettles : Settles tx block o s r s') :
    Passes tx block precompiles s₀ (.settled r) s' := by
  cases hsettles with
  | phases hrefund hpay htouch hremove hflush hemit =>
    exact (((((h.refund hrefund).pay hpay).touch htouch).remove hremove).flush hflush).settle hemit

/-- What was started passes the points up to the end of the outermost frame. -/
theorem Passes.ends {start : Start} {o : Outcome} {s₁ : State}
    (h : Passes tx block precompiles s₀ .warmed s)
    (hstart : tx.start (tx.context block precompiles) s = .ok start s₁)
    (hfinish : start.finish (tx.context block precompiles) s₁ = .ok o s') :
    Passes tx block precompiles s₀ (.ended o) s' := by
  cases start with
  | done outcome =>
    obtain ⟨rfl, rfl⟩ := pure_ok_iff.mp hfinish
    exact h.skip hstart
  | frame entry =>
    obtain ⟨k, m, hrun, rfl⟩ := Start.finish_frame_ok hfinish
    exact (h.enter hstart).runs hrun

/-- A transaction that has come to its end was settled after its outermost frame had ended. -/
theorem exists_ended_of_apply {r : Receipt} (h : tx.apply block precompiles s₀ = .ok r s') :
    ∃ o s, Passes tx block precompiles s₀ (.ended o) s ∧ tx.settle block o s = .ok r s' := by
  obtain ⟨_, s₁, hvalidate, h⟩ := bind_ok_iff.mp h
  obtain ⟨_, s₂, hbuy, h⟩ := bind_ok_iff.mp h
  obtain ⟨_, s₃, hwarm, h⟩ := bind_ok_iff.mp h
  obtain ⟨start, s₄, hstart, h⟩ := bind_ok_iff.mp h
  obtain ⟨o, s₅, hfinish, hsettle⟩ := bind_ok_iff.mp h
  have hwarmed : Passes tx block precompiles s₀ .warmed s₃ :=
    ((Passes.begin.validate hvalidate).buy hbuy).warm hwarm
  exact ⟨o, s₅, hwarmed.ends hstart hfinish, hsettle⟩

/-- **A transaction that is applied** passes all points up to the last. -/
theorem passes_of_apply {r : Receipt} (h : tx.apply block precompiles s = .ok r s') :
    Passes tx block precompiles s (.settled r) s' := by
  obtain ⟨o, s₁, hended, hsettle⟩ := exists_ended_of_apply h
  exact hended.settles (settles_of_settle hsettle)

end Passing

/-! ### What happens between two points -/

/-- A check only looks. -/
theorem require_looks (condition : Bool) (reason : Rejection) :
    Looks (fun e => ∃ reason, e = .rejected reason) (require condition reason) :=
  .ite (.pure ()) (.throw ⟨reason, rfl⟩)

/-- What validation checks when the chain is the right one. -/
def checkTerms (tx : Transaction) (block : Block) : Action Unit := do
  require (tx.feeCaps.2 ≤ tx.feeCaps.1) (.priorityFeeAboveMaxFee tx.feeCaps.2 tx.feeCaps.1)
  require (block.baseFee ≤ tx.feeCaps.1) (.maxFeeBelowBaseFee tx.feeCaps.1 block.baseFee)
  require (tx.gasLimit ≤ block.gasLimit) (.gasLimitReached tx.gasLimit block.gasLimit)
  require (tx.intrinsicGas ≤ tx.gasLimit) (.intrinsicGasTooLow tx.gasLimit tx.intrinsicGas)
  let nonce ← World.nonce tx.sender
  require (tx.nonce = nonce) (.nonceMismatch tx.nonce nonce)
  require (nonce < maxNonce) .nonceAtMaximum
  let balance ← World.balance tx.sender
  require (tx.gasLimit * tx.feeCaps.1 + tx.value ≤ balance)
    (.insufficientFunds balance (tx.gasLimit * tx.feeCaps.1 + tx.value))

/-- The chain is checked if the transaction names one, and then come the other terms. -/
theorem validate_eq (tx : Transaction) (block : Block) : tx.validate block =
    match tx.chainId with
    | none => tx.checkTerms block
    | some chainId => require (chainId = block.chainId) (.chainIdMismatch chainId block.chainId) >>=
        fun _ => tx.checkTerms block := by
  rw [validate]
  cases tx.chainId with
  | none => rfl
  | some chainId => rfl

/-- The terms are checked without changing anything. -/
theorem checkTerms_looks (tx : Transaction) (block : Block) :
    Looks (fun e => ∃ reason, e = .rejected reason) (tx.checkTerms block) := by
  refine (require_looks _ _).bind fun _ => (require_looks _ _).bind fun _ =>
    (require_looks _ _).bind fun _ => (require_looks _ _).bind fun _ => ?_
  refine (Looks.of_mirrors (World.nonce_mirrors _)).bind fun _ => (require_looks _ _).bind fun _ =>
    (require_looks _ _).bind fun _ => ?_
  exact (Looks.of_mirrors (World.balance_mirrors _)).bind fun _ => require_looks _ _

/-- Validation only looks, and fails only by rejecting the transaction. -/
theorem validate_looks (tx : Transaction) (block : Block) :
    Looks (fun e => ∃ reason, e = .rejected reason) (tx.validate block) := by
  rw [validate_eq]
  cases tx.chainId with
  | none => exact tx.checkTerms_looks block
  | some chainId => exact (require_looks _ _).bind fun _ => tx.checkTerms_looks block

/-- Validating shows nothing but what was shown. -/
theorem validate_quiet (tx : Transaction) (block : Block) : Keeps Quiet (tx.validate block) :=
  (tx.validate_looks block).quiet

/-- Warming up cannot fail at all. -/
theorem warmUp_looks (tx : Transaction) (ctx : Context) :
    Looks (fun _ => False) (tx.warmUp ctx) := by
  refine (Looks.warmAccount _).discard.bind fun _ => ?_
  refine (Looks.forM fun a => (Looks.warmAccount a).discard).bind fun _ => ?_
  refine Looks.forM fun entry => (Looks.warmAccount _).discard.bind fun _ => ?_
  exact Looks.forM fun key => (Looks.warmSlot _).discard

/-- So does warming up. -/
theorem warmUp_quiet (tx : Transaction) (ctx : Context) : Keeps Quiet (tx.warmUp ctx) :=
  (tx.warmUp_looks ctx).quiet

/-- What a transaction is started with: it was validated, and its gas was bought. -/
theorem Passes.exists_validate {tx : Transaction} {block : Block}
    {precompiles : Std.ExtTreeMap Address Precompile} {s₀ s : State}
    (h : Passes tx block precompiles s₀ .warmed s) :
    ∃ s₁, tx.validate block s₀ = .ok () s₁ ∧ Grows s₀ s ∧
      View.setBalance tx.sender ((s₀.view.get tx.sender).balance -
        tx.gasLimit * tx.effectiveGasPrice block.baseFee) s₀.view = .ok () s.view := by
  cases h with
  | warm h hwarm =>
    cases h with
    | buy h hbuy =>
      cases h with
      | validate h hvalidate =>
        cases h
        have hvalidated := tx.validate_quiet block hvalidate
        have hwarmed := tx.warmUp_quiet _ hwarm
        obtain ⟨hgrows, hset⟩ := (World.subBalance_mirrors _ _).ok hbuy
        rw [hvalidated.view_eq] at hset
        refine ⟨_, hvalidate, (hvalidated.toGrows.trans hgrows).trans hwarmed.toGrows, ?_⟩
        rw [hwarmed.view_eq]
        exact hset

/-- The creation that a transaction without a recipient is. -/
def creation (tx : Transaction) (address : Address) : Creation where
  creator := tx.sender
  address
  initCode := tx.data
  gas := tx.gasLimit - tx.intrinsicGas
  value := tx.value

/-- The call that a transaction to a recipient is. -/
def call (tx : Transaction) (recipient : Address) : Call where
  caller := tx.sender
  address := recipient
  codeAddress := recipient
  value := tx.value
  gas := tx.gasLimit - tx.intrinsicGas
  input := tx.data

/-- What a transaction does before its call or its creation is started: only a call spends the nonce
of the sender there, as a creation does so by itself. -/
theorem starts_of_start {tx : Transaction} {ctx : Context} {s s' : State} {r : Start}
    (h : tx.start ctx s = .ok r s') : ∃ s₁, Grows s s₁ ∧
      ((s₁.view = s.view ∧ ∃ address, Creation.Starts (tx.creation address) s₁ r s') ∨
      (s₁.view = s.view.update tx.sender
        (fun account => { account with nonce := account.nonce + 1 }) ∧
        ∃ recipient, Call.Starts ctx (tx.call recipient) s₁ r s')) := by
  rw [start] at h
  cases hrecipient : tx.recipient with
  | none =>
    rw [hrecipient] at h
    obtain ⟨address, s₁, haddress, h⟩ := bind_ok_iff.mp h
    obtain ⟨-, rfl⟩ := Action.liftExcept_ok_iff.mp haddress
    obtain ⟨_, s₂, hwarm, h⟩ := bind_ok_iff.mp h
    have hquiet : Quiet s s₂ := (Substate.warmAccount_quiet _).discard hwarm
    exact ⟨s₂, hquiet.toGrows, .inl ⟨hquiet.view_eq, address, Creation.starts_of_start h⟩⟩
  | some recipient =>
    -- a call spends the nonce before it warms the recipient
    rw [hrecipient] at h
    obtain ⟨_, s₁, hnonce, h⟩ := bind_ok_iff.mp h
    obtain ⟨_, s₂, hwarm, h⟩ := bind_ok_iff.mp h
    have hgrows : Grows s s₁ := (World.incrementNonce_mirrors _).grows hnonce
    have hquiet : Quiet s₁ s₂ := (Substate.warmAccount_quiet _).discard hwarm
    refine ⟨s₂, hgrows.trans hquiet.toGrows, .inr ⟨?_, recipient, Call.starts_of_start h⟩⟩
    rw [hquiet.view_eq]
    exact (World.incrementNonce_mirrors _).view_eq hnonce

section StartMoves

variable {Ψ : View → View → Prop} [Std.Refl Ψ] [IsTrans View Ψ] {tx : Transaction} {ctx : Context}
  {s s' : State}

/-- All that starts a transaction respects a relation that calls and creations respect. -/
theorem start_done_moves {o : Outcome} (hcreation : ∀ (c : Creation) (v : View), c.Respects Ψ v)
    (hcall : ∀ (c : Call) (v : View), c.Respects Ψ v) (h : tx.start ctx s = .ok (.done o) s') :
    Moves Ψ s s' := by
  -- only a call has its nonce spent here; that is what a creation does to a nonce as well
  obtain ⟨s₁, hgrows, ⟨hview, address, hstarts⟩ | ⟨hview, recipient, hstarts⟩⟩ := starts_of_start h
  · exact (hgrows.moves_of_view_eq hview).trans (hstarts.moves (hcreation _ _))
  · have hspent : Moves Ψ s s₁ := ⟨hgrows, hview ▸ (hcreation (tx.creation recipient) _).spendNonce⟩
    exact hspent.trans (hstarts.moves (hcall _ _))

/-- The outermost frame runs in a layer of its own. -/
theorem start_frame_moves {entry : Frame} (hcreation : ∀ (c : Creation) (v : View), c.Respects Ψ v)
    (hcall : ∀ (c : Call) (v : View), c.Respects Ψ v) (h : tx.start ctx s = .ok (.frame entry) s') :
    ∃ c, Moves Ψ s c ∧ Moves Ψ c.opened s' := by
  obtain ⟨s₁, hgrows, ⟨hview, address, hstarts⟩ | ⟨hview, recipient, hstarts⟩⟩ := starts_of_start h
  · obtain ⟨s₂, -, hbefore, hafter⟩ := hstarts.opens (hcreation _ _)
    exact ⟨s₂, (hgrows.moves_of_view_eq hview).trans hbefore, hafter⟩
  · have hspent : Moves Ψ s s₁ := ⟨hgrows, hview ▸ (hcreation (tx.creation recipient) _).spendNonce⟩
    obtain ⟨s₂, -, hbefore, hafter⟩ := hstarts.opens (hcall _ _)
    exact ⟨s₂, hspent.trans hbefore, hafter⟩

end StartMoves

/-- What removing accounts does: it conserves value, and leaves open which
contracts are to be deleted. -/
structure Removes (v v' : View) : Prop extends Conserves v v' where
  selfDestructs_eq : v'.selfDestructs = v.selfDestructs

instance : Std.Refl Removes := ⟨fun v => ⟨Conserves.refl v, rfl⟩⟩

instance : IsTrans View Removes := ⟨fun _ _ _ h h' =>
  ⟨h.toConserves.trans h'.toConserves, h'.selfDestructs_eq.trans h.selfDestructs_eq⟩⟩

/-- Deleting an account, if nothing is lost by it. -/
theorem delete_moves {a : Address} {s s' : State} {u : Unit} (h : World.delete a s = .ok u s')
    (hview : Conserves s.view (s.view.set a none)) : Moves Removes s s' := by
  refine ⟨(World.delete_mirrors a).grows h, ?_⟩
  rw [(World.delete_mirrors a).view_eq h]
  exact ⟨hview, rfl⟩

/-- An account that is empty can be deleted at no loss. -/
theorem prune_moves (a : Address) : Keeps (Moves Removes) (prune a) := by
  -- an account is deleted only if it is there and empty
  intro s u s' h
  obtain ⟨present, s₁, hpresent, h⟩ := bind_ok_iff.mp h
  have hquiet₁ := (World.isPresent_mirrors a).quiet hpresent
  split at h
  · obtain ⟨empty, s₂, hempty, h⟩ := bind_ok_iff.mp h
    have hquiet₂ := (World.isEmpty_mirrors a).quiet hempty
    have hanswer := (World.isEmpty_mirrors a).answer hempty
    have hmoves : Moves Removes s s₂ := hquiet₁.moves.trans hquiet₂.moves
    split at h
    · next htrue =>
      -- an empty account holds nothing
      have hbalance : (s₂.view.get a).balance = 0 := by
        rw [hanswer, ← hquiet₂.view_eq] at htrue
        simp only [Account.isEmpty, Bool.and_eq_true, decide_eq_true_eq] at htrue
        exact htrue.1.1.2
      exact hmoves.trans (delete_moves h (Conserves.set hbalance.symm))
    · obtain ⟨-, rfl⟩ := pure_ok_iff.mp h
      exact hmoves
  · obtain ⟨-, rfl⟩ := pure_ok_iff.mp h
    exact hquiet₁.moves

/-- Deleting contracts that destroyed themselves. -/
theorem deletes_moves {l : List Address} {s s' : State} {u : Unit}
    (hl : ∀ a ∈ l, a ∈ s.view.selfDestructs) (h : l.forM World.delete s = .ok u s') :
    Moves Removes s s' := by
  induction l generalizing s with
  | nil =>
    obtain ⟨-, rfl⟩ := pure_ok_iff.mp h
    exact Std.Refl.refl s
  | cons a l ih =>
    change (World.delete a >>= fun _ => l.forM World.delete) s = .ok u s' at h
    obtain ⟨_, s₁, hdelete, h⟩ := bind_ok_iff.mp h
    -- the marks stay while accounts are deleted, so the rest of the list is still marked
    have hmoves := delete_moves hdelete (Conserves.delete (hl a List.mem_cons_self))
    refine hmoves.trans (ih (fun b hb => ?_) h)
    rw [hmoves.respects.selfDestructs_eq]
    exact hl b (List.mem_cons_of_mem a hb)

/-- What destroyed itself is deleted first, and then what is empty of all that was touched. -/
theorem removeAccounts_ok {s s' : State} {selfDestructed : List Address}
    (h : removeAccounts s = .ok selfDestructed s') :
    selfDestructed = s.view.selfDestructs.toList ∧
      ∃ s₁, selfDestructed.forM World.delete s = .ok () s₁ ∧
        s₁.view.touched.toList.forM prune s₁ = .ok () s' := by
  rw [removeAccounts, get_bind] at h
  obtain ⟨_, s₁, hdelete, h⟩ := bind_ok_iff.mp h
  rw [get_bind] at h
  obtain ⟨_, s₂, hprune, h⟩ := bind_ok_iff.mp h
  obtain ⟨rfl, rfl⟩ := pure_ok_iff.mp h
  exact ⟨rfl, s₁, hdelete, hprune⟩

/-- **Removing accounts** conserves value, and says which contracts were deleted. -/
theorem removeAccounts_moves {s s' : State} {selfDestructed : List Address}
    (h : removeAccounts s = .ok selfDestructed s') :
    selfDestructed = s.view.selfDestructs.toList ∧ Moves Removes s s' := by
  obtain ⟨rfl, s₁, hdelete, hprune⟩ := removeAccounts_ok h
  have hdeleted : Moves Removes s s₁ :=
    deletes_moves (fun a ha => Std.ExtTreeSet.mem_toList.mp ha) hdelete
  exact ⟨rfl, hdeleted.trans (Keeps.forM prune_moves hprune)⟩

end Transaction

/-! ### Settling -/

/-- From `s₀` to `s` the total of the source has changed by `d`, or by less if
contracts were deleted. -/
structure Settled (s₀ : State) (d : Int) (selfDestructed : List Address) (s : State) : Prop where
  solvent : s.Solvent
  total_le : s.world.source.total ≤ s₀.world.source.total + d
  total_eq : selfDestructed = [] → s.world.source.total = s₀.world.source.total + d

/-- **Writing back** makes the total that is shown that of the source. -/
theorem Balanced.flush {source : Source} {d : Int} {s s' : State} {selfDestructed : List Address}
    (h : Balanced (.ofSource source) d s) (hself : selfDestructed = s.view.selfDestructs.toList)
    (hflush : World.flush s = .ok () s') : Settled (.ofSource source) d selfDestructed s' := by
  obtain ⟨-, hshown⟩ := World.flushedSource_eq_shown h.retains h.marks
  obtain ⟨events, rfl⟩ := World.eq_of_flush hflush
  have hbefore : source.total = (State.ofSource source).view.total :=
    Source.total_eq_of_shown fun a => (World.shown_ofSource source a).symm
  have hafter : s.world.flushedSource.total = s.view.total := Source.total_eq_of_shown hshown
  -- solvency is about what is shown, what the source has and what the journal would bring back
  refine ⟨⟨fun a account ha => ?_, fun a account ha => ?_, h.solvent.recorded⟩, ?_, fun hnone => ?_⟩
  · -- what is not cached is shown as the source has it, which is how it was shown before
    refine h.solvent.view a account ?_
    change World.shown { s.world with source := s.world.flushedSource, dirty := ∅ } a =
      some account at ha
    unfold World.shown at ha
    dsimp only at ha
    cases hcache : s.world.cache[a]? with
    | none =>
      rw [hcache] at ha
      exact (hshown a).symm.trans ha
    | some entry =>
      rw [hcache] at ha
      change s.world.shown a = some account
      rw [World.shown, hcache, ← ha]
  · exact h.solvent.view a account ((hshown a).symm.trans ha)
  · change s.world.flushedSource.total ≤ source.total + d
    rw [hafter, hbefore]
    exact h.total_le
  · change s.world.flushedSource.total = source.total + d
    rw [hafter, hbefore]
    refine h.total_eq (Std.ExtTreeSet.ext_mem fun a => ?_)
    rw [← Std.ExtTreeSet.mem_toList, ← hself, hnone]
    exact ⟨fun ha => absurd ha List.not_mem_nil, fun ha => absurd ha Std.ExtTreeSet.not_mem_empty⟩

/-- What does not change what is shown leaves what was settled. -/
theorem Settled.quiet {s₀ s s' : State} {d : Int} {selfDestructed : List Address}
    (h : Settled s₀ d selfDestructed s) (hquiet : Quiet s s') : Settled s₀ d selfDestructed s' := by
  refine ⟨hquiet.solvent h.solvent, ?_, ?_⟩
  · rw [hquiet.source]
    exact h.total_le
  · rw [hquiet.source]
    exact h.total_eq

namespace Transaction

/-- What holds at a point of a transaction. While frames run, their layers are open above a state
that is balanced itself. -/
def Phase.Sound (tx : Transaction) (block : Block) (s₀ : State) : Phase → State → Prop
  | .begun, s | .validated, s => Balanced s₀ 0 s
  | .bought, s | .warmed, s | .ended _, s =>
    Balanced s₀ (-(tx.gasLimit * tx.effectiveGasPrice block.baseFee)) s
  | .running m, s => m.state = s ∧
    ∃ c, Balanced s₀ (-(tx.gasLimit * tx.effectiveGasPrice block.baseFee)) c ∧
      m.Nested Conserves c.opened 0
  | .refunded o counter, s =>
    Balanced s₀ (-(tx.gasUsed o counter * tx.effectiveGasPrice block.baseFee)) s
  | .paid o counter, s | .touched o counter, s =>
    Balanced s₀ (-(tx.gasUsed o counter * block.baseFee)) s
  | .removed o counter selfDestructed, s =>
    Balanced s₀ (-(tx.gasUsed o counter * block.baseFee)) s ∧
      selfDestructed = s.view.selfDestructs.toList
  | .flushed o counter selfDestructed, s =>
    Settled s₀ (-(tx.gasUsed o counter * block.baseFee)) selfDestructed s
  | .settled r, s => Settled s₀ (-(r.gasUsed * block.baseFee)) r.selfDestructed s

/-- **Every point is sound**, by induction on the way there. -/
theorem Passes.sound {tx : Transaction} {block : Block}
    {precompiles : Std.ExtTreeMap Address Precompile} {source : Source} {p : Phase} {s : State}
    (hsource : (State.ofSource source).Solvent)
    (h : Passes tx block precompiles (.ofSource source) p s) :
    p.Sound tx block (.ofSource source) s := by
  induction h with
  | begin => exact Balanced.refl hsource
  | validate _ hvalidate ih => exact ih.moves (tx.validate_quiet block hvalidate).moves
  | buy _ hbuy ih =>
    have hbought := ih.subBalance hbuy
    rwa [zero_sub] at hbought
  | warm _ hwarm ih => exact ih.moves (tx.warmUp_quiet _ hwarm).moves
  | enter _ hstart ih =>
    -- the layer of the outermost frame opens above a state that is balanced
    obtain ⟨c, hbefore, hafter⟩ :=
      start_frame_moves Conserves.respected.creation Conserves.respected.call hstart
    exact ⟨rfl, c, ih.moves hbefore, [], rfl, .root hafter⟩
  | skip _ hstart ih =>
    exact ih.moves (start_done_moves Conserves.respected.creation Conserves.respected.call hstart)
  | iterate _ hiterate ih =>
    obtain ⟨-, c, hc, hnested⟩ := ih
    refine ⟨rfl, c, hc, ?_⟩
    exact Machine.RunsAbove.nested Conserves.respected (.single ⟨hiterate, Nat.zero_le _⟩) hnested
  | finish _ hiterate ih =>
    obtain ⟨-, c, hc, hnested⟩ := ih
    -- the last frame is left, which closes the last layer
    rcases Machine.iterate_cases hiterate with ⟨ho, -⟩ | ⟨o', -, hwaiting, hleaves⟩
    · cases ho
    · have hmoves := hnested.moves (congrArg List.length hwaiting)
      exact hc.moves (hleaves.moves (Conserves.respected.frame (fun _ _ _ => trivial) _) hmoves)
  | @refund s s' o _ hrefund ih =>
    have hrefunded := ih.addBalance hrefund
    -- what was paid for the whole limit, less what comes back
    rwa [show -(tx.gasLimit * tx.effectiveGasPrice block.baseFee) +
        (tx.gasLimit - tx.gasUsed o s.substate.refund) * tx.effectiveGasPrice block.baseFee =
        -(tx.gasUsed o s.substate.refund * tx.effectiveGasPrice block.baseFee) by ring] at hrefunded
  | @pay s s' o counter _ hpay ih =>
    have hpaid := ih.addBalance hpay
    -- the priority fee stays in circulation; only the base fee is burnt
    rwa [show -(tx.gasUsed o counter * tx.effectiveGasPrice block.baseFee) +
        tx.gasUsed o counter * (tx.effectiveGasPrice block.baseFee - block.baseFee) =
        -(tx.gasUsed o counter * block.baseFee) by ring] at hpaid
  -- being touched is no matter of value
  | touch _ htouch ih =>
    refine ih.moves ⟨(Substate.touch_mirrors _).grows htouch, ?_⟩
    rw [(Substate.touch_mirrors _).view_eq htouch]
    exact Conserves.of_account_eq rfl rfl fun _ h => h
  -- what is deleted is marked or empty, so value is lost only where contracts were deleted
  | remove _ hremove ih =>
    obtain ⟨hself, hmoves⟩ := removeAccounts_moves hremove
    refine ⟨ih.moves ⟨hmoves.toGrows, hmoves.respects.toConserves⟩, ?_⟩
    rw [hself, hmoves.respects.selfDestructs_eq]
  | flush _ hflush ih => exact ih.1.flush ih.2 hflush
  | settle _ hemit ih => exact ih.quiet (State.emit_quiet _ hemit)

/-- No balance is negative at a sound point. -/
theorem Phase.Sound.solvent {tx : Transaction} {block : Block} {s₀ s : State} {p : Phase}
    (h : p.Sound tx block s₀ s) : s.Solvent := by
  cases p with
  | running m =>
    -- all layers are open above a balanced state
    obtain ⟨rfl, c, hc, cs, -, hlayered⟩ := h
    exact (hc.opened.layered hlayered).solvent
  | removed o counter selfDestructed => exact h.1.solvent
  | flushed o counter selfDestructed => exact Settled.solvent h
  | settled r => exact Settled.solvent h
  | _ => exact Balanced.solvent h

/-- **Conservation of value.** A transaction that is applied to a source without negative
balances leaves the sum of all balances lowered by the base fee for the gas used, or by more
if contracts were deleted. At every point that it passes, whether or not it comes to its
end, no balance is negative. -/
theorem apply_conserves_value (tx : Transaction) (block : Block)
    (precompiles : Std.ExtTreeMap Address Precompile) {source : Source}
    (hsource : ∀ (a : Address) (account : Account), source.accounts[a]? = some account →
      0 ≤ account.balance) :
    (∀ (r : Receipt) (s' : State), tx.apply block precompiles (.ofSource source) = .ok r s' →
      tx.Passes block precompiles (.ofSource source) (.settled r) s' ∧
      s'.world.source.total ≤ source.total - r.gasUsed * block.baseFee ∧
      (r.selfDestructed = [] →
        s'.world.source.total = source.total - r.gasUsed * block.baseFee)) ∧
    (∀ (p : Phase) (s : State), tx.Passes block precompiles (.ofSource source) p s →
      s.Solvent) := by
  have hsolvent : (State.ofSource source).Solvent := by
    -- a fresh state has an empty cache and no journal
    refine ⟨fun a account ha => hsource a account ?_, hsource,
      fun u hu => absurd hu List.not_mem_nil⟩
    rw [← World.shown_ofSource source a]
    exact ha
  refine ⟨fun r s' happly => ?_, fun p s hpasses => (hpasses.sound hsolvent).solvent⟩
  have hpasses := passes_of_apply happly
  have hsettled : Settled (.ofSource source) (-(r.gasUsed * block.baseFee)) r.selfDestructed s' :=
    hpasses.sound hsolvent
  rw [sub_eq_add_neg]
  exact ⟨hpasses, hsettled.total_le, hsettled.total_eq⟩

/-- A transfer to an account without code, and a call to a contract that
destroys itself in its own favour. -/
theorem transfer_and_destruction_conserve_value :
    let source : Source :=
      { accounts := ((∅ : Std.ExtTreeMap Address Account).insert 1 { balance := 5000000 }).insert 2
          { balance := 4, code := ⟨#[0x30, 0xff]⟩ } }
    let block : Block := { coinbase := 3, baseFee := 7 }
    let tx (recipient : Address) : Transaction :=
      { sender := 1, nonce := 0, gasLimit := 60000, recipient, value := 3, gasPrice := 10 }
    (∀ (a : Address) (account : Account), source.accounts[a]? = some account →
      0 ≤ account.balance) ∧
    (∃ r s', (tx 4).apply block ∅ (.ofSource source) = .ok r s' ∧ r.selfDestructed = [] ∧
      s'.world.source.total = source.total - r.gasUsed * 7) ∧
    (∃ r s', (tx 2).apply block ∅ (.ofSource source) = .ok r s' ∧ r.selfDestructed = [2] ∧
      s'.world.source.total ≤ source.total - r.gasUsed * 7) := by
  intro source block tx
  have hsource : ∀ (a : Address) (account : Account), source.accounts[a]? = some account →
      0 ≤ account.balance := by
    intro a account h
    rw [Std.ExtTreeMap.getElem?_insert] at h
    split at h
    · cases h
      decide
    · rw [Std.ExtTreeMap.getElem?_insert] at h
      split at h
      · cases h
        decide
      · rw [Std.ExtTreeMap.getElem?_empty] at h
        cases h
  have happly (recipient : Address) :=
    ((tx recipient).apply_conserves_value block ∅ hsource).1
  refine ⟨hsource, ?_, ?_⟩
  · have htransfer : endsWith (fun r _ => decide (r.selfDestructed = []))
        ((tx 4).apply block ∅ (.ofSource source)) = true := by decide +kernel
    obtain ⟨r, s', hr, hnone⟩ := endsWith_iff.mp htransfer
    rw [decide_eq_true_eq] at hnone
    exact ⟨r, s', hr, hnone, (happly 4 r s' hr).2.2 hnone⟩
  · have hdestruction : endsWith (fun r _ => decide (r.selfDestructed = [2]))
        ((tx 2).apply block ∅ (.ofSource source)) = true := by decide +kernel
    obtain ⟨r, s', hr, hdestroyed⟩ := endsWith_iff.mp hdestruction
    rw [decide_eq_true_eq] at hdestroyed
    exact ⟨r, s', hr, hdestroyed, (happly 2 r s' hr).2.1⟩

end Transaction

end EvmCore
