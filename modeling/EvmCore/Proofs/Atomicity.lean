import EvmCore.Proofs.Conservation
import EvmCore.Proofs.Stops
import Mathlib

/-!
# What a transaction that fails leaves in the source

A transaction works on a cache, and only its last part, the write-back, touches the
source. So a transaction that is rejected, or that fails at any point before, leaves the
source exactly as it was: every computation up to there leaves the source alone, also
where it ends with an error (`Fixes`).

The write-back itself goes through the changed addresses in ascending order and stops at the first
one that the source refuses (`World.flush_eq_error`). What was written before stays written. A
transaction that fails there has committed its changes to the addresses below that one and to no
other, which is all or nothing only if there are none below
(`Transaction.failed_apply_commits_lower_addresses`,
`Transaction.failed_write_back_commits_the_sender`).
-/

namespace EvmCore

/-! ### Runs -/

/-- A run leaves the source alone, however it ends. -/
theorem Machine.run_fixes (ctx : Context) (n : Nat) : Fixes source (run ctx n) := by
  -- by induction on the iterations that are left
  induction n with
  | zero => exact fun _ => rfl
  | succ n ih =>
    intro m
    rw [run]
    cases hiterate : iterate ctx m with
    | ok o? m₁ =>
      have hsource := (iterate_fixes ctx).ok hiterate
      cases o? with
      | some o => exact hsource
      | none => exact (ih m₁).trans hsource
    | error e m₁ => exact (iterate_fixes ctx).error hiterate

/-- So does whatever a transaction starts, however it is finished. -/
theorem Start.finish_fixes (ctx : Context) (start : Start) :
    Fixes State.source (start.finish ctx) := by
  cases start with
  | done outcome => exact fun _ => rfl
  | frame entry =>
    intro s
    rw [finish]
    beta_reduce
    rw [execute]
    -- the bound on the iterations is never to be evaluated
    generalize iterationBound entry.gas = k
    cases hrun : Machine.run ctx k { top := entry, state := s } with
    | ok o m => exact (Machine.run_fixes ctx k).ok hrun
    | error e m => exact (Machine.run_fixes ctx k).error hrun

/-! ### Writing back -/

namespace World

/-- A flush that fails at `a` has written the marked accounts below `a`. -/
theorem flush_error {s s' : State} {e : Fault} (h : flush s = .error e s') :
    ∃ a ∈ s.world.dirty, e = .unwritable a ∧ ∀ b, s'.world.source.accounts[b]? =
      if b ∈ s.world.dirty ∧ b < a then s.world.cached b else s.world.source.accounts[b]? := by
  obtain ⟨a, ha, rfl, rfl⟩ := eq_of_flush_error h
  exact ⟨a, ha, rfl, s.world.sourceBelow_getElem? a⟩

end World

/-! ### Transactions -/

namespace Transaction

/-- Starting a transaction leaves the source alone. -/
theorem start_admitted (tx : Transaction) (ctx : Context) :
    Admitted ctx State.source (tx.start ctx) := by
  rw [start]
  cases tx.recipient with
  -- a creation derives its address, while a call spends a nonce first
  | none =>
    exact (Admitted.liftExcept (Creation.addressAt_spares _ _)).bind fun _ =>
      (Admitted.warmAccount _).discard.bind fun _ => Admitted.creation_start _
  | some recipient =>
    exact (Admitted.of_writes (World.incrementNonce_mirrors _)).bind fun _ =>
      (Admitted.warmAccount _).discard.bind fun _ => Admitted.call_start ctx _

/-- So does removing accounts, which are deleted in the cache only. -/
theorem removeAccounts_admitted (ctx : Context) : Admitted ctx State.source removeAccounts := by
  have hprune (a : Address) : Admitted ctx State.source (prune a) := by
    refine (Admitted.of_reads (World.isPresent_mirrors a)).bind fun _ => .ite ?_ (.pure _)
    refine (Admitted.of_reads (World.isEmpty_mirrors a)).bind fun _ => .ite ?_ (.pure _)
    exact Admitted.of_writes (World.delete_mirrors a)
  refine Upholds.get.bind fun _ => Upholds.bind ?_ fun _ => Upholds.get.bind fun _ => ?_
  · exact .forM fun a => Admitted.of_writes (World.delete_mirrors a)
  · exact (Upholds.forM hprune).bind fun _ => .pure _

section Failing

variable {tx : Transaction} {block : Block} {precompiles : Std.ExtTreeMap Address Precompile}
  {s₀ s s' : State} {e : Fault}

/-- The transaction failed while it wrote back: the accounts at the changed addresses below the one
that was refused are written, and no others. -/
def FailsInWriteBack (tx : Transaction) (block : Block)
    (precompiles : Std.ExtTreeMap Address Precompile) (source : Source) (e : Fault) (s' : State) :
    Prop :=
  ∃ o counter selfDestructed s a,
    tx.Passes block precompiles (.ofSource source) (.removed o counter selfDestructed) s ∧
    a ∈ s.world.dirty ∧ e = .unwritable a ∧
    ∀ b, s'.world.source.accounts[b]? =
      if b ∈ s.world.dirty ∧ b < a then s.world.cached b else source.accounts[b]?

/-- Settling fails with the source as it was, or because an account cannot be written back. -/
theorem settle_error_cases {o : Outcome} (hpasses : tx.Passes block precompiles s₀ (.ended o) s)
    (h : tx.settle block o s = .error e s') :
    s'.source = s.source ∨ ∃ counter selfDestructed s₁,
      tx.Passes block precompiles s₀ (.removed o counter selfDestructed) s₁ ∧ s₁.source = s.source ∧
      World.flush s₁ = .error e s' := by
  have hremoves := (removeAccounts_admitted (tx.context block precompiles)).fixes
  rw [settle, get_bind] at h
  -- step by step, each of which may fail before the source is touched
  rcases bind_error_iff.mp h with h | ⟨_, s₁, hrefund, h⟩
  · exact .inl ((World.addBalance_mirrors _ _).fixes.error h)
  have hsource₁ := (World.addBalance_mirrors _ _).fixes.ok hrefund
  rcases bind_error_iff.mp h with h | ⟨_, s₂, hpay, h⟩
  · exact .inl (((World.addBalance_mirrors _ _).fixes.error h).trans hsource₁)
  have hsource₂ := ((World.addBalance_mirrors _ _).fixes.ok hpay).trans hsource₁
  rcases bind_error_iff.mp h with h | ⟨_, s₃, htouch, h⟩
  · exact .inl (((Substate.touch_mirrors _).fixes.error h).trans hsource₂)
  have hsource₃ := ((Substate.touch_mirrors _).fixes.ok htouch).trans hsource₂
  rcases bind_error_iff.mp h with h | ⟨selfDestructed, s₄, hremove, h⟩
  · exact .inl ((hremoves.error h).trans hsource₃)
  have hsource₄ := (hremoves.ok hremove).trans hsource₃
  -- from here on only the write-back can fail
  rcases bind_error_iff.mp h with h | ⟨_, s₅, -, h⟩
  · exact .inr ⟨_, selfDestructed, s₄,
      (((hpasses.refund hrefund).pay hpay).touch htouch).remove hremove, hsource₄, h⟩
  · rcases bind_error_iff.mp h with h | ⟨_, s₆, -, h⟩
    · exact absurd h modify_ne_error
    · rw [get_bind] at h
      exact absurd h pure_ne_error

/-- A transaction fails with the source as it was, or because an account cannot be written back. -/
theorem apply_error_cases (h : tx.apply block precompiles s₀ = .error e s') :
    s'.source = s₀.source ∨ ∃ o counter selfDestructed s,
      tx.Passes block precompiles s₀ (.removed o counter selfDestructed) s ∧ s.source = s₀.source ∧
      World.flush s = .error e s' := by
  -- phase by phase: where one fails, it has left the source alone, as all before it have
  rcases bind_error_iff.mp h with h | ⟨_, s₁, hvalidate, h⟩
  · exact .inl ((tx.validate_looks block).fixes.error h)
  have hsource₁ := (tx.validate_looks block).fixes.ok hvalidate
  rcases bind_error_iff.mp h with h | ⟨_, s₂, hbuy, h⟩
  · exact .inl (((World.subBalance_mirrors _ _).fixes.error h).trans hsource₁)
  have hsource₂ := ((World.subBalance_mirrors _ _).fixes.ok hbuy).trans hsource₁
  rcases bind_error_iff.mp h with h | ⟨_, s₃, hwarm, h⟩
  · exact .inl (((tx.warmUp_looks _).fixes.error h).trans hsource₂)
  have hsource₃ := ((tx.warmUp_looks _).fixes.ok hwarm).trans hsource₂
  rcases bind_error_iff.mp h with h | ⟨start, s₄, hstart, h⟩
  · exact .inl (((tx.start_admitted _).fixes.error h).trans hsource₃)
  have hsource₄ := ((tx.start_admitted _).fixes.ok hstart).trans hsource₃
  rcases bind_error_iff.mp h with h | ⟨o, s₅, hfinish, h⟩
  · exact .inl (((start.finish_fixes _).error h).trans hsource₄)
  have hsource₅ := ((start.finish_fixes _).ok hfinish).trans hsource₄
  have hwarmed : tx.Passes block precompiles s₀ .warmed s₃ :=
    ((Passes.begin.validate hvalidate).buy hbuy).warm hwarm
  obtain hsame | ⟨counter, selfDestructed, s₆, hpasses, hsource₆, hflush⟩ :=
    settle_error_cases (hwarmed.ends hstart hfinish) h
  · exact .inl (hsame.trans hsource₅)
  · exact .inr ⟨o, counter, selfDestructed, s₆, hpasses, hsource₆.trans hsource₅, hflush⟩

/-- A transaction fails with the source as it was, or in the write-back. -/
theorem apply_error {source : Source}
    (h : tx.apply block precompiles (.ofSource source) = .error e s') :
    s'.source = source ∨ tx.FailsInWriteBack block precompiles source e s' := by
  obtain hsame | ⟨o, counter, selfDestructed, s, hpasses, hsource, hflush⟩ := apply_error_cases h
  · exact .inl hsame
  · obtain ⟨a, ha, he, haccounts⟩ := World.flush_error hflush
    change s.world.source = source at hsource
    rw [hsource] at haccounts
    exact .inr ⟨o, counter, selfDestructed, s, a, hpasses, ha, he, haccounts⟩

/-- A source that refuses nothing is left as it was by a transaction that fails. -/
theorem source_of_error {source : Source} (hsource : source.NeverFails)
    (h : tx.apply block precompiles (.ofSource source) = .error e s') :
    s'.world.source = source := by
  obtain hsame | ⟨o, counter, selfDestructed, s, -, hs, hflush⟩ := apply_error_cases h
  · exact hsame
  · -- such a source can be written to, so the write-back cannot be what failed
    have hnever : s.world.source.NeverFails := by
      change s.source.NeverFails
      rw [hs]
      exact hsource
    obtain ⟨s₁, hflushed⟩ := World.flush_of_neverFails hnever
    cases hflushed.symm.trans hflush

end Failing

/-- **What a transaction that fails leaves in the source.** Unless the source refuses to write
an account back, everything is as it was, whatever the transaction failed of. If it refuses
one, the accounts at the changed addresses below that one have been written, and everything
from that one on is as it was. -/
theorem failed_apply_commits_lower_addresses (tx : Transaction) (block : Block)
    (precompiles : Std.ExtTreeMap Address Precompile) {source : Source} {e : Fault} {s' : State}
    (h : tx.apply block precompiles (.ofSource source) = .error e s') :
    ((∀ a, e ≠ .unwritable a) → s'.world.source = source) ∧
    (s'.world.source = source ∨ tx.FailsInWriteBack block precompiles source e s') ∧
    (∀ a, e = .unwritable a → ∀ b, ¬b < a →
      s'.world.source.accounts[b]? = source.accounts[b]?) := by
  have hcases : s'.world.source = source ∨ tx.FailsInWriteBack block precompiles source e s' :=
    apply_error h
  refine ⟨fun he => ?_, hcases, fun a ha b hb => ?_⟩
  · -- only the write-back fails of an account that cannot be written
    rcases hcases with hsource | ⟨o, counter, selfDestructed, s, a, -, -, ha, -⟩
    · exact hsource
    · exact absurd ha (he a)
  · rcases hcases with hsource | ⟨o, counter, selfDestructed, s, a', -, -, ha', haccounts⟩
    · rw [hsource]
    · -- the write-back stopped at the account that the fault names
      cases ha.symm.trans ha'
      rw [haccounts b, if_neg fun hwritten => hb hwritten.2]

/-- **All or nothing does not hold.** A transfer to an address that the source refuses to write: the
sender, who stands below it, has paid and spent a nonce, and the recipient has received nothing. -/
theorem failed_write_back_commits_the_sender :
    let sender : Address := 0x5e5e5e5e5e5e5e5e5e5e5e5e5e5e5e5e5e5e5e5e
    let recipient : Address := 0xc0c0c0c0c0c0c0c0c0c0c0c0c0c0c0c0c0c0c0c0
    let source : Source :=
      { accounts :=
          ((∅ : Std.ExtTreeMap Address Account).insert sender { balance := 1000000 }).insert
          recipient { balance := 7 }
        unwritable := (∅ : AddressSet).insert recipient }
    let block : Block := { coinbase := 0xcbcbcbcbcbcbcbcbcbcbcbcbcbcbcbcbcbcbcbcb }
    let tx : Transaction :=
      { sender, nonce := 0, gasLimit := 100000, recipient := some recipient, value := 5,
        gasPrice := 1 }
    ∃ s', tx.apply block ∅ (.ofSource source) = .error (.unwritable recipient) s' ∧
      (source.accounts[sender]?).map (fun a => (a.nonce, a.balance)) = some (0, 1000000) ∧
      (s'.world.source.accounts[sender]?).map (fun a => (a.nonce, a.balance)) = some (1, 978995) ∧
      (s'.world.source.accounts[recipient]?).map Account.balance = some 7 := by
  intro sender recipient source block tx
  have hfails : failsWith (fun e s' => decide (e = .unwritable recipient ∧
      (s'.world.source.accounts[sender]?).map (fun a => (a.nonce, a.balance)) = some (1, 978995) ∧
      (s'.world.source.accounts[recipient]?).map Account.balance = some 7))
      (tx.apply block ∅ (.ofSource source)) = true := by decide +kernel
  obtain ⟨e, s', hresult, hs'⟩ := failsWith_iff.mp hfails
  rw [decide_eq_true_eq] at hs'
  obtain ⟨rfl, hsender, hrecipient⟩ := hs'
  exact ⟨s', hresult, by decide +kernel, hsender, hrecipient⟩

/-- A transaction that is rejected, its nonce being wrong, leaves the source alone. One that the
source refuses to write back for the recipient leaves alone what stands above the sender. -/
theorem rejection_and_refusal_leave_source :
    let source : Source :=
      { accounts := ((∅ : Std.ExtTreeMap Address Account).insert 1 { balance := 1000000 }).insert 2
          { balance := 7 }
        unwritable := (∅ : AddressSet).insert 2 }
    let tx (nonce : Int) : Transaction :=
      { sender := 1, nonce, gasLimit := 100000, recipient := some 2, value := 5, gasPrice := 1 }
    (∃ s', (tx 4).apply {} ∅ (.ofSource source) = .error (.rejected (.nonceMismatch 4 0)) s' ∧
      s'.world.source = source) ∧
    (∃ s', (tx 0).apply {} ∅ (.ofSource source) = .error (.unwritable 2) s' ∧
      (tx 0).FailsInWriteBack {} ∅ source (.unwritable 2) s' ∧
      ∀ b : Address, ¬b < 2 → s'.world.source.accounts[b]? = source.accounts[b]?) := by
  intro source tx
  constructor
  · have hrejected : failsWith (fun e _ => decide (e = .rejected (.nonceMismatch 4 0)))
        ((tx 4).apply {} ∅ (.ofSource source)) = true := by decide +kernel
    obtain ⟨e, s', hresult, he⟩ := failsWith_iff.mp hrejected
    obtain rfl := of_decide_eq_true he
    exact ⟨s', hresult, ((tx 4).failed_apply_commits_lower_addresses {} ∅ hresult).1 nofun⟩
  · have hrefused : failsWith (fun e s' => decide (e = .unwritable 2 ∧
        (s'.world.source.accounts[(1 : Address)]?).map Account.balance = some 978995))
        ((tx 0).apply {} ∅ (.ofSource source)) = true := by decide +kernel
    obtain ⟨e, s', hresult, hs'⟩ := failsWith_iff.mp hrefused
    rw [decide_eq_true_eq] at hs'
    obtain ⟨rfl, hsender⟩ := hs'
    obtain ⟨-, hcases, habove⟩ := (tx 0).failed_apply_commits_lower_addresses {} ∅ hresult
    refine ⟨s', hresult, hcases.resolve_left fun hsource => ?_, habove 2 rfl⟩
    rw [hsource] at hsender
    exact absurd hsender (by decide +kernel)

end Transaction

end EvmCore
