import EvmCore.Proofs.Containment
import EvmCore.Proofs.RefundBound
import EvmCore.Proofs.WriteBack
import Mathlib

/-!
# What a failed transaction changes

A transaction whose outermost frame reverts or fails is still included. Its gas is bought and the
nonce of the sender is spent before the layer of the outermost frame is opened, and closing that
layer takes back everything else. So what is shown when it is settled is known in full
(`View.charged`), down to the logs, the contracts to be deleted and the refund counter. Settling
then pays the sender back for the gas that was not used and the coinbase for the rest, and writes
both of them to the source and nothing else.

The call or the creation itself is never refused: validation has made sure that the sender can pay
the value on top of the gas, and that there is a nonce left to spend.
-/

namespace EvmCore

/-- The account that a source holds at an address, one that holds nothing if there is none. -/
def Source.get (source : Source) (a : Address) : Account := (source.accounts[a]?).getD {}

/-- What is shown at first is what the source holds. -/
theorem State.get_ofSource (source : Source) (a : Address) :
    (ofSource source).view.get a = source.get a :=
  congrArg (·.getD {}) (World.shown_ofSource source a)

/-- An outcome without a new contract: the code reverted, or it failed and forfeited its gas. The
failure is not a refusal. -/
structure Outcome.Failed (o : Outcome) : Prop where
  created : o.created = none
  exit : o.exit = .reverted ∨ ∃ e, o.exit = .failed e ∧ ¬e.IsRefusal ∧ o.gasLeft = 0

/-- What is known where the status is a failure. -/
theorem Outcome.Failed.of_failure {o : Outcome} (h : o.Failed)
    (hstatus : Status.ofExit o.exit = .failure) :
    o.gasLeft = 0 ∧ ∃ e, o.exit.failure? = some e ∧ ¬e.IsRefusal := by
  rcases h.exit with hreverted | ⟨e, hfailed, hrefusal, hgas⟩
  · rw [hreverted] at hstatus
    cases hstatus
  · exact ⟨hgas, e, congrArg Exit.failure? hfailed, hrefusal⟩

/-- The three refusals, by name. -/
theorem Failure.ne_of_not_isRefusal {e : Failure} (h : ¬e.IsRefusal) :
    e ≠ .depth ∧ e ≠ .insufficientBalance ∧ e ≠ .nonceOverflow := by
  refine ⟨?_, ?_, ?_⟩
  · rintro rfl
    exact h trivial
  · rintro rfl
    exact h trivial
  · rintro rfl
    exact h trivial

/-- Why init code cannot be deployed is no refusal. -/
theorem not_isRefusal_of_deployFailure? {code : ByteArray} {gas : Int} {e : Failure}
    (h : deployFailure? code gas = some e) : ¬e.IsRefusal := by
  -- none of the three checks of a deployment is a refusal
  rw [deployFailure?] at h
  split at h
  · cases h
    exact not_false
  · split at h
    · cases h
      exact not_false
    · split at h
      · cases h
        exact not_false
      · cases h

/-- Leaving a frame that did not fail by a refusal. -/
theorem Leaves.failed_of_exit_ne {f : Frame} {s s' : State} {o : Outcome} (h : Leaves f s o s')
    (hf : ∀ e, f.mode = .exited (.failed e) → ¬e.IsRefusal) (hexit : o.exit ≠ .halted) :
    o.Failed := by
  cases h with
  | halted => exact absurd rfl hexit
  | deployed => exact absurd rfl hexit
  | undeployable _ _ hdeploy =>
    exact ⟨rfl, .inr ⟨_, rfl, not_isRefusal_of_deployFailure? hdeploy, rfl⟩⟩
  | reverted => exact ⟨rfl, .inl rfl⟩
  | failed hmode => exact ⟨rfl, .inr ⟨_, rfl, hf _ hmode, rfl⟩⟩

namespace Account

/-- What is left of an account that is removed if it is empty. -/
def kept (account : Account) : Option Account := if account.isEmpty then none else some account

/-- An account with a nonce is not empty. -/
theorem kept_of_nonce {account : Account} (h : account.nonce ≠ 0) :
    account.kept = some account := by
  rw [kept, if_neg fun hempty => ?_]
  simp only [isEmpty, Bool.and_eq_true, decide_eq_true_eq] at hempty
  exact h hempty.1.1.1

end Account

/-- A set with one address. -/
theorem AddressSet.toList_singleton (a : Address) : ((∅ : AddressSet).insert a).toList = [a] := by
  -- nothing says where an insertion stands in the list, but a list of one item
  -- that holds `a` is `[a]`
  have hlength : ((∅ : AddressSet).insert a).toList.length = 1 := by
    rw [Std.ExtTreeSet.length_toList, Std.ExtTreeSet.size_insert]
    rfl
  obtain ⟨b, hb⟩ := List.length_eq_one_iff.mp hlength
  have ha : a ∈ ((∅ : AddressSet).insert a).toList :=
    Std.ExtTreeSet.mem_toList.mpr (Std.ExtTreeSet.mem_insert.mpr (.inl Std.ReflOrd.compare_self))
  rw [hb] at ha ⊢
  rw [List.mem_singleton.mp ha]

namespace View

/-- The nonce of an account is spent. -/
def spendNonce (v : View) (a : Address) : View :=
  v.update a fun account => { account with nonce := account.nonce + 1 }

/-- Spending a nonce leaves the balance alone. -/
theorem spendNonce_balance (v : View) (a : Address) :
    ((v.spendNonce a).get a).balance = (v.get a).balance := by
  rw [spendNonce, get_update, if_pos rfl]

/-- What is shown after `a` has paid for gas and spent a nonce. -/
def charged (v : View) (a : Address) (cost : Int) : View :=
  (v.update a ({ · with balance := (v.get a).balance - cost })).spendNonce a

/-- An update changes one account. -/
theorem account_update (v : View) (a : Address) (f : Account → Account) (b : Address) :
    (v.update a f).account b = if b = a then some (f (v.get a)) else v.account b :=
  Function.update_apply _ _ _ _

/-- Being charged changes the account that is charged, and no other. -/
theorem charged_account (v : View) (a : Address) (cost : Int) (b : Address) :
    (v.charged a cost).account b = if b = a then
      some { v.get a with nonce := (v.get a).nonce + 1, balance := (v.get a).balance - cost }
    else v.account b := by
  rw [charged, spendNonce, account_update, account_update, get_update, if_pos rfl]
  split
  · rfl
  · rfl

/-- What was charged is marked to be written back. -/
theorem marks_charged (v : View) (a : Address) (cost : Int) : v.Marks (v.charged a cost) :=
  (v.marks_set a _).trans (marks_set _ a _)

/-- Removes the account at an address if it is empty. -/
def prune (v : View) (a : Address) : View :=
  if (v.account a).isSome = true ∧ (v.get a).isEmpty = true then v.set a none else v

/-- **Crediting an account and removing it if it is empty**, at any address. -/
theorem prune_credit_account (v : View) (a : Address) (x : Int) (b : Address) :
    ((v.credit a x).markTouched a |>.prune a).account b =
      if b = a then ((v.get a).credited x).kept else v.account b := by
  have hself : ((v.credit a x).markTouched a).account a = some ((v.get a).credited x) :=
    (v.account_update a (·.credited x) a).trans (if_pos rfl)
  have hget : ((v.credit a x).markTouched a).get a = (v.get a).credited x := by
    rw [get, hself, Option.getD_some]
  have hother (hb : b ≠ a) : ((v.credit a x).markTouched a).account b = v.account b :=
    (v.account_update a (·.credited x) b).trans (if_neg hb)
  rw [prune, hself, hget, Account.kept]
  -- the mark does not matter here: `a` is removed only for what the credit left of it
  by_cases hempty : ((v.get a).credited x).isEmpty = true
  · rw [if_pos ⟨rfl, hempty⟩, if_pos hempty]
    refine (Function.update_apply _ _ _ _).trans ?_
    by_cases hb : b = a
    · rw [if_pos hb, if_pos hb]
    · rw [if_neg hb, if_neg hb, hother hb]
  · rw [if_neg fun h => hempty h.2, if_neg hempty]
    by_cases hb : b = a
    · rw [if_pos hb, hb, hself]
    · rw [if_neg hb, hother hb]

/-- What is shown when the sender of a transaction was given back what its unused gas
cost, and the coinbase the fee. -/
def settled (v : View) (sender coinbase : Address) (back fee : Int) : View :=
  (((v.credit sender back).credit coinbase fee).markTouched coinbase).prune coinbase

/-- What is removed is marked to be written back. -/
theorem marks_prune (v : View) (a : Address) : v.Marks (v.prune a) := by
  rw [prune]
  split
  · exact v.marks_set a none
  · exact .refl v

/-- What settling changes is marked to be written back. -/
theorem marks_settled (v : View) (sender coinbase : Address) (back fee : Int) :
    v.Marks (v.settled sender coinbase back fee) :=
  ((v.marks_set sender _).trans (marks_set _ coinbase _)).trans
    (.trans (.of_eq rfl rfl) (marks_prune _ coinbase))

/-- Settling leaves the logs alone. -/
theorem settled_logs (v : View) (sender coinbase : Address) (back fee : Int) :
    (v.settled sender coinbase back fee).logs = v.logs := by
  rw [settled, prune]
  split
  · rfl
  · rfl

/-- **Charging and settling** change the sender and the coinbase, and the sender is still there
afterwards, also where it is the coinbase itself: it has spent a nonce, so it is not empty. -/
theorem settled_charged_account (v : View) (sender coinbase : Address) (cost back fee : Int)
    (hnonce : 0 ≤ (v.get sender).nonce) :
    (∀ a, a ≠ sender → a ≠ coinbase →
      ((v.charged sender cost).settled sender coinbase back fee).account a = v.account a) ∧
    ((v.charged sender cost).settled sender coinbase back fee).account sender =
      some { v.get sender with
        nonce := (v.get sender).nonce + 1
        balance := (v.get sender).balance - cost + back + if sender = coinbase then fee else 0 } ∧
    (coinbase ≠ sender →
      ((v.charged sender cost).settled sender coinbase back fee).account coinbase =
      ((v.get coinbase).credited fee).kept) := by
  -- before the coinbase is credited nothing but the sender differs
  have haccount (a : Address) : ((v.charged sender cost).credit sender back).account a =
      if a = sender then some { v.get sender with
        nonce := (v.get sender).nonce + 1, balance := (v.get sender).balance - cost + back }
      else v.account a := by
    rw [credit, account_update, get, charged_account, if_pos rfl, charged_account]
    split
    · rfl
    · rfl
  have hget (a : Address) : ((v.charged sender cost).credit sender back).get a =
      if a = sender then { v.get sender with
        nonce := (v.get sender).nonce + 1, balance := (v.get sender).balance - cost + back }
      else v.get a := by
    rw [get, haccount]
    split
    · rfl
    · rfl
  refine ⟨fun a ha ha' => ?_, ?_, fun hne => ?_⟩
  · rw [settled, prune_credit_account, if_neg ha', haccount, if_neg ha]
  · rw [settled, prune_credit_account]
    by_cases hsame : sender = coinbase
    · -- the sender is the coinbase too, and the nonce keeps it from being removed
      have hkept : (v.get sender).nonce + 1 ≠ 0 := by omega
      rw [if_pos hsame, if_pos hsame, ← hsame, hget, if_pos rfl]
      exact Account.kept_of_nonce hkept
    · rw [if_neg hsame, if_neg hsame, haccount, if_pos rfl, Int.add_zero]
  · rw [settled, prune_credit_account, if_pos rfl, hget, if_neg hne]

end View

namespace Transaction

variable {tx : Transaction} {block : Block} {precompiles : Std.ExtTreeMap Address Precompile}
  {source : Source} {ctx : Context} {s s' : State} {o : Outcome} {r : Receipt}

/-! ### Starting -/

/-- What makes sure that the call or the creation of a transaction is not refused. -/
structure Covers (tx : Transaction) (v : View) : Prop where
  value : tx.value ≤ (v.get tx.sender).balance
  nonce : (v.get tx.sender).nonce < maxNonce

/-- A call or a creation that comes to nothing at once, and does not succeed, spends a nonce and
changes nothing else. -/
theorem start_done_failed (h : tx.start ctx s = .ok (.done o) s') (hs : tx.Covers s.view)
    (hexit : o.exit ≠ .halted) : o.Failed ∧ Grows s s' ∧ s'.view = s.view.spendNonce tx.sender := by
  have hdepth : ¬depthLimit < 0 := by decide
  obtain ⟨s₁, hgrows, ⟨hview, address, hstarts⟩ | ⟨hview, recipient, hstarts⟩⟩ := starts_of_start h
  · -- a creation: what is left is an address that is taken, which is looked at
    -- after the nonce was spent
    cases hstarts with
    | tooDeep hdeep => exact absurd hdeep hdepth
    | unfunded _ hfunds =>
      rw [hview] at hfunds
      exact absurd hs.value (not_le.mpr hfunds)
    | nonceAtMaximum _ hnonce =>
      rw [hview] at hnonce
      have hlt : (s.view.get tx.sender).nonce < maxNonce := hs.nonce
      exact absurd (Int.add_one_le_of_lt hlt) (not_le.mpr hnonce)
    | collided _ hgrows₁ hspent _ =>
      rw [hview] at hspent
      exact ⟨⟨rfl, .inr ⟨_, rfl, not_false, rfl⟩⟩, hgrows.trans hgrows₁, hspent⟩
  · -- a call: what is left is a contract built into the machine that costs too
    -- much, whose layer is reverted
    cases hstarts with
    | tooDeep _ hdeep => exact absurd hdeep hdepth
    | unfunded _ hunfunded =>
      obtain ⟨-, -, hfunds⟩ := hunfunded
      have hbalance : (s₁.view.get tx.sender).balance = (s.view.get tx.sender).balance := by
        rw [hview]
        exact s.view.spendNonce_balance tx.sender
      have hlt : (s₁.view.get tx.sender).balance < tx.value := hfunds
      exact absurd hs.value (not_le.mpr (hbalance ▸ hlt))
    | void => exact absurd rfl hexit
    | precompiled => exact absurd rfl hexit
    | codeless => exact absurd rfl hexit
    | exhausted hquiet henters _ _ _ hrevert =>
      obtain ⟨s₂, hrevert₂, hgrows₂, hview₂⟩ := henters.grows.revert
      -- a revert is deterministic, so the state is the one that the layers predict
      cases hrevert₂.symm.trans hrevert
      refine ⟨⟨rfl, .inr ⟨_, rfl, not_false, rfl⟩⟩, (hgrows.trans hquiet.toGrows).trans hgrows₂, ?_⟩
      rw [hview₂, hquiet.view_eq]
      exact hview

/-- The layer of the outermost frame is opened right after the nonce was spent. -/
theorem start_frame_charged {entry : Frame} (h : tx.start ctx s = .ok (.frame entry) s') :
    ∃ c : State, Grows s c ∧ c.view = s.view.spendNonce tx.sender ∧ Moves AnyChange c.opened s' ∧
      entry.mode = .running := by
  obtain ⟨s₁, hgrows, ⟨hview, address, hstarts⟩ | ⟨hview, recipient, hstarts⟩⟩ := starts_of_start h
  · have hmode := hstarts.child_mode
    cases hstarts with
    | frame _ _ hgrows₁ hspent henters =>
      rw [hview] at hspent
      exact ⟨_, hgrows.trans hgrows₁, hspent, ⟨henters.grows, trivial⟩, hmode⟩
  · have hmode := hstarts.child_mode
    cases hstarts with
    | frame _ hquiet henters _ =>
      exact ⟨_, hgrows.trans hquiet.toGrows, hquiet.view_eq.trans hview,
        ⟨henters.grows, trivial⟩, hmode⟩

/-! ### Running -/

/-- What is shown when a transaction that did not succeed is settled. -/
def chargedView (tx : Transaction) (block : Block) (source : Source) : View :=
  (State.ofSource source).view.charged tx.sender (tx.gasLimit * tx.effectiveGasPrice block.baseFee)

/-- What is shown when a transaction is about to start: its gas is bought, and it can pay
the value and spend a nonce. -/
theorem Passes.warmed_charged (h : Passes tx block precompiles (.ofSource source) .warmed s) :
    Grows (.ofSource source) s ∧ s.view.spendNonce tx.sender = tx.chargedView block source ∧
      tx.Covers s.view := by
  obtain ⟨hadmissible, hgrows, hbought⟩ := h.bought
  obtain ⟨-, hview⟩ := View.setBalance_ok hbought
  refine ⟨hgrows, ?_, ?_, ?_⟩
  · rw [hview]
    rfl
  · -- validation has checked that the sender can pay the value on top of all the gas
    have hcost := hadmissible.cost_add_value_le
    rw [hview, View.get_update, if_pos rfl]
    dsimp only
    omega
  · have hnonce := hadmissible.nonce
    rw [hview, View.get_update, if_pos rfl]
    exact hnonce ▸ hadmissible.nonce_lt

/-- While a transaction runs, the layer of its outermost frame is open above what it was charged,
and the frame on top has not failed by a refusal. -/
structure RunsCharged (tx : Transaction) (block : Block) (source : Source) (m : Machine) :
    Prop where
  base : ∃ c : State, Retains (.ofSource source) c ∧ c.view = tx.chargedView block source ∧
    m.Nested AnyChange c.opened 0
  unrefused : ∀ e, m.top.mode = .exited (.failed e) → ¬e.IsRefusal

/-- **The invariant of a run.** -/
theorem Passes.running_charged {m : Machine}
    (h : Passes tx block precompiles (.ofSource source) (.running m) s) :
    tx.RunsCharged block source m := by
  refine (h.running_induction (P := tx.RunsCharged block source) (fun hwarmed hstart => ?_)
    fun hrunning hm hiterate => ?_).1
  · obtain ⟨hgrows, hcharged, -⟩ := hwarmed.warmed_charged
    obtain ⟨c, hgrows₁, hview, hmoves, hmode⟩ := start_frame_charged hstart
    refine ⟨⟨c, (hgrows.trans hgrows₁).toRetains, hview.trans hcharged, [], rfl, .root hmoves⟩, ?_⟩
    exact fun e hfailed => absurd hfailed (Frame.unfailed_of_running hmode e)
  · obtain ⟨⟨c, hretains, hview, hnested⟩, -⟩ := hm
    have hiterates := Machine.iterates_of_iterate hiterate
    refine ⟨⟨c, hretains, hview, ?_⟩, ?_⟩
    · exact hiterates.nested hnested (Nat.zero_le _) (AnyChange.respects _ _)
    · -- a frame that is entered while the sender can pay is not refused
      exact fun e => Machine.iterate_not_isRefusal (hrunning.covered trivial) hiterate

/-- However the outermost frame ended, nothing was written back yet. -/
theorem Passes.ended_retains (h : Passes tx block precompiles (.ofSource source) (.ended o) s) :
    Retains (.ofSource source) s := by
  cases h with
  | skip hwarmed hstart =>
    obtain ⟨hgrows, -, -⟩ := hwarmed.warmed_charged
    have hmoves := start_done_moves AnyChange.respected.creation AnyChange.respected.call hstart
    exact hgrows.toRetains.trans hmoves.toRetains
  | finish hrunning hiterate =>
    obtain ⟨⟨c, hretains, -, hnested⟩, -⟩ := hrunning.running_charged
    obtain ⟨hnone, -⟩ | ⟨o', -, hwaiting, hleaves⟩ := Machine.iterate_cases hiterate
    · cases hnone
    · have hopened := hnested.moves (congrArg List.length hwaiting)
      exact hretains.trans (hleaves.moves (AnyChange.respects _ _) hopened).toRetains

/-- **When the outermost frame did not succeed**, all that is left of the
transaction is what it was charged. -/
theorem Passes.ended_charged (h : Passes tx block precompiles (.ofSource source) (.ended o) s)
    (hexit : o.exit ≠ .halted) :
    o.Failed ∧ Retains (.ofSource source) s ∧ s.view = tx.chargedView block source := by
  have hretained := h.ended_retains
  cases h with
  | skip hwarmed hstart =>
    obtain ⟨-, hcharged, hcovers⟩ := hwarmed.warmed_charged
    obtain ⟨hfailed, -, hview⟩ := start_done_failed hstart hcovers hexit
    exact ⟨hfailed, hretained, hview.trans hcharged⟩
  | finish hrunning hiterate =>
    obtain ⟨⟨c, -, hview, hnested⟩, hmode⟩ := hrunning.running_charged
    obtain ⟨hnone, -⟩ | ⟨o', ho, hwaiting, hleaves⟩ := Machine.iterate_cases hiterate
    · cases hnone
    · cases ho
      -- with no frame waiting the innermost layer is that of the outermost frame, and
      -- leaving the frame reverts it
      have hopened := hnested.moves (congrArg List.length hwaiting)
      refine ⟨hleaves.failed_of_exit_ne hmode hexit, hretained, ?_⟩
      exact ((hleaves.contained hopened).view_eq hexit).trans hview

/-! ### Settling -/

/-- Adding to a balance credits the account. -/
theorem credit_of_addBalance {a : Address} {x : Int} (h : World.addBalance a x s = .ok () s') :
    Grows s s' ∧ s'.view = s.view.credit a x := by
  obtain ⟨hgrows, hset⟩ := (World.addBalance_mirrors a x).ok h
  exact ⟨hgrows, (View.setBalance_ok hset).2⟩

/-- Removing an empty account, on the view. -/
theorem prune_mirrors (a : Address) : Mirrors (prune a) (View.writes fun v => v.prune a) := by
  refine ((World.isPresent_mirrors a).bind
    fun present => Mirrors.ite
      ((World.isEmpty_mirrors a).bind fun empty => Mirrors.ite (World.delete_mirrors a) (.pure ()))
        (.pure ())).congr fun v => ?_
  change (if (v.account a).isSome = true then _ else _ : ViewM Unit) v = .ok () (v.prune a)
  rw [View.prune]
  -- the account is asked only if it is there, and deleted only if it is empty
  by_cases hpresent : (v.account a).isSome = true
  · by_cases hempty : (v.get a).isEmpty = true
    · rw [if_pos hpresent, if_pos ⟨hpresent, hempty⟩]
      change (if (v.get a).isEmpty = true then _ else _ : ViewM Unit) v = _
      rw [if_pos hempty]
      rfl
    · rw [if_pos hpresent, if_neg fun h => hempty h.2]
      change (if (v.get a).isEmpty = true then _ else _ : ViewM Unit) v = _
      rw [if_neg hempty]
      rfl
  · rw [if_neg hpresent, if_neg fun h => hpresent h.1]
    rfl

/-- Where nothing destroyed itself and only `a` was touched, nothing but `a` can be removed. -/
theorem removeAccounts_of_touched {selfDestructed : List Address} {a : Address}
    (h : removeAccounts s = .ok selfDestructed s') (hself : s.view.selfDestructs = ∅)
    (htouched : s.view.touched = (∅ : AddressSet).insert a) :
    selfDestructed = [] ∧ Grows s s' ∧ s'.view = s.view.prune a := by
  obtain ⟨rfl, s₁, hdelete, hprunes⟩ := removeAccounts_ok h
  have hnone : s.view.selfDestructs.toList = [] := by
    rw [hself]
    rfl
  rw [hnone] at hdelete
  obtain ⟨-, rfl⟩ := pure_ok_iff.mp hdelete
  rw [htouched, AddressSet.toList_singleton] at hprunes
  obtain ⟨_, s₂, hprune, hrest⟩ := bind_ok_iff.mp hprunes
  obtain ⟨-, rfl⟩ := pure_ok_iff.mp hrest
  exact ⟨hnone, (prune_mirrors a).grows hprune, (prune_mirrors a).view_eq hprune⟩

/-- Settling credits the sender and the coinbase, removes accounts and writes the rest back. -/
theorem Settles.exists_removed (h : Settles tx block o s r s') :
    ∃ s₁ s₂, Grows s s₁ ∧
      s₁.view = ((s.view.credit tx.sender
        ((tx.gasLimit - r.gasUsed) * tx.effectiveGasPrice block.baseFee)).credit block.coinbase
        (r.gasUsed * (tx.effectiveGasPrice block.baseFee - block.baseFee))).markTouched
          block.coinbase ∧
      removeAccounts s₁ = .ok r.selfDestructed s₂ ∧ s'.world.source = s₂.world.flushedSource ∧
      s'.world.created = s₂.world.created ∧ s'.substate = s₂.substate ∧
      r.logs = s₂.substate.logs.toList := by
  cases h with
  | @phases s₁ s₂ s₃ s₄ s₅ _ _ hback hfee htouch hremove hflush hemit =>
    -- the two credits and the mark, one after the other, on the view
    obtain ⟨hgrows₁, hview₁⟩ := credit_of_addBalance hback
    obtain ⟨hgrows₂, hview₂⟩ := credit_of_addBalance hfee
    have hview₃ := (Substate.touch_mirrors block.coinbase).view_eq htouch
    rw [hview₂, hview₁] at hview₃
    obtain ⟨events, rfl⟩ := World.eq_of_flush hflush
    obtain rfl := modify_ok_iff.mp hemit
    refine ⟨s₃, s₄, ?_, hview₃, hremove, rfl, rfl, rfl, rfl⟩
    exact (hgrows₁.trans hgrows₂).trans ((Substate.touch_mirrors _).grows htouch)

/-- **Settling what left no trace** writes the sender and the coinbase back. -/
theorem Settles.of_traceless (h : Settles tx block o s r s') (hself : s.view.selfDestructs = ∅)
    (htouched : s.view.touched = ∅) :
    r.selfDestructed = [] ∧ r.logs = s.view.logs.toList ∧
      ∃ s₁, Grows s s₁ ∧ s'.world.source = s₁.world.flushedSource ∧
        s₁.view = s.view.settled tx.sender block.coinbase
          ((tx.gasLimit - r.gasUsed) * tx.effectiveGasPrice block.baseFee)
          (r.gasUsed * (tx.effectiveGasPrice block.baseFee - block.baseFee)) := by
  obtain ⟨s₁, s₂, hgrows, hview, hremove, hsource, -, -, hlogs⟩ := h.exists_removed
  -- so far only the coinbase was touched, and nothing destroyed itself
  have hself₁ : s₁.view.selfDestructs = ∅ := by
    rw [hview]
    exact hself
  have htouched₁ : s₁.view.touched = (∅ : AddressSet).insert block.coinbase := by
    rw [hview]
    exact congrArg (·.insert block.coinbase) htouched
  obtain ⟨hnone, hgrows₂, hview₂⟩ := removeAccounts_of_touched hremove hself₁ htouched₁
  rw [hview] at hview₂
  refine ⟨hnone, hlogs.trans ?_, s₂, hgrows.trans hgrows₂, hsource, hview₂⟩
  change s₂.view.logs.toList = _
  rw [hview₂]
  exact congrArg Array.toList (View.settled_logs ..)

/-- **What the source holds after a transaction that did not succeed.** -/
theorem source_of_failed (hended : Passes tx block precompiles (.ofSource source) (.ended o) s)
    (hsettles : Settles tx block o s r s') (hexit : o.exit ≠ .halted)
    (hadmissible : tx.Admissible block (State.ofSource source).view) (hnonce : 0 ≤ tx.nonce) :
    let price := tx.effectiveGasPrice block.baseFee
    let fee := r.gasUsed * (price - block.baseFee)
    let after := s'.world.source
    (∀ a, a ≠ tx.sender → a ≠ block.coinbase → after.accounts[a]? = source.accounts[a]?) ∧
    after.accounts[tx.sender]? = some { source.get tx.sender with
      nonce := tx.nonce + 1
      balance := (source.get tx.sender).balance - r.gasUsed * price +
        if tx.sender = block.coinbase then fee else 0 } ∧
    (block.coinbase ≠ tx.sender →
      after.accounts[block.coinbase]? = ((source.get block.coinbase).credited fee).kept) := by
  intro price fee after
  obtain ⟨-, hretains, hview⟩ := hended.ended_charged hexit
  obtain ⟨-, -, s₁, hgrows, hsource, hsettled⟩ :=
    hsettles.of_traceless (congrArg View.selfDestructs hview) (congrArg View.touched hview)
  rw [hview] at hsettled
  have hmarks : (State.ofSource source).view.Marks s₁.view := by
    rw [hsettled]
    exact (View.marks_charged _ _ _).trans (View.marks_settled _ _ _ _ _)
  obtain ⟨-, hshown⟩ := World.flushedSource_eq_shown (hretains.trans hgrows.toRetains) hmarks
  rw [hsettled] at hshown
  have hget := State.get_ofSource source
  have hbefore : (source.get tx.sender).nonce = tx.nonce := hget tx.sender ▸ hadmissible.nonce.symm
  obtain ⟨hothers, hsender, hcoinbase⟩ := View.settled_charged_account (State.ofSource source).view
    tx.sender block.coinbase (tx.gasLimit * price) ((tx.gasLimit - r.gasUsed) * price) fee
    (by rwa [hget, hbefore])
  have hafter (a : Address) : after.accounts[a]? = _ :=
    (congrArg (·.accounts[a]?) hsource).trans (hshown a)
  refine ⟨fun a ha ha' => ?_, ?_, fun hne => ?_⟩
  · exact (hafter a).trans ((hothers a ha ha').trans (World.shown_ofSource source a))
  · refine ((hafter tx.sender).trans hsender).trans ?_
    -- all the gas was bought, and what was not used came back
    have hpaid : (source.get tx.sender).balance - tx.gasLimit * price +
        (tx.gasLimit - r.gasUsed) * price =
        (source.get tx.sender).balance - r.gasUsed * price := by ring
    rw [hget, hbefore, hpaid]
  · refine ((hafter block.coinbase).trans (hcoinbase hne)).trans ?_
    rw [hget]

/-- Nothing is refunded for a transaction that did not succeed, unless it gave
back more gas than it had. -/
theorem refund_of_failed (hended : Passes tx block precompiles (.ofSource source) (.ended o) s)
    (hsettles : Settles tx block o s r s') (hexit : o.exit ≠ .halted) :
    s.substate.refund = 0 ∧ r.refund = min 0 ((tx.gasLimit - o.gasLeft) / 5) ∧
      r.gasUsed + r.refund = tx.gasLimit - o.gasLeft := by
  obtain ⟨-, -, hview⟩ := hended.ended_charged hexit
  have hcounter : s.substate.refund = 0 := congrArg View.refund hview
  obtain ⟨-, -, -, hgasUsed, hrefund⟩ := hsettles.receipt
  rw [hcounter] at hgasUsed hrefund
  refine ⟨hcounter, hrefund, ?_⟩
  rw [hgasUsed, hrefund, gasUsed, gasSpent]
  exact Int.sub_add_cancel _ _

/-- Only a transaction that was validated has an end. -/
theorem admissible_of_apply (h : tx.apply block precompiles s = .ok r s') :
    tx.Admissible block s.view := by
  obtain ⟨_, s₁, hvalidate, -⟩ := bind_ok_iff.mp h
  exact admissible_of_validate hvalidate

/-- **A transaction that did not succeed changes fees and a nonce only.** It leaves no logs, no
deletions and no new contract. The source differs at the sender, which has spent a nonce and paid
for the gas used, and at the coinbase, which has got what is above the base fee and is absent if
that leaves it empty; code and storage stay. If it failed, all its gas is used, and not because it
was refused. The counter of refunds stands at zero when it is settled, so that no refund is paid: it
is a fifth of the gas spent if that is less than zero, which takes an execution that gave back more
gas than the transaction had, and thus a negative number to begin with. -/
theorem failed_transaction_changes_fees_and_nonce (tx : Transaction) (block : Block)
    (precompiles : Std.ExtTreeMap Address Precompile) (source : Source) (r : Receipt) (s' : State)
    (hnonce : 0 ≤ tx.nonce) (happly : tx.apply block precompiles (.ofSource source) = .ok r s')
    (hstatus : r.status ≠ .success) :
    let price := tx.effectiveGasPrice block.baseFee
    let fee := r.gasUsed * (price - block.baseFee)
    let after := s'.world.source
    r.logs = [] ∧ r.selfDestructed = [] ∧ r.created = none ∧
    (∀ a, a ≠ tx.sender → a ≠ block.coinbase → after.accounts[a]? = source.accounts[a]?) ∧
    after.accounts[tx.sender]? = some { source.get tx.sender with
      nonce := tx.nonce + 1
      balance := (source.get tx.sender).balance - r.gasUsed * price +
        if tx.sender = block.coinbase then fee else 0 } ∧
    (block.coinbase ≠ tx.sender →
      after.accounts[block.coinbase]? = ((source.get block.coinbase).credited fee).kept) ∧
    (r.status = .failure → r.gasUsed = tx.gasLimit ∧ r.refund = 0 ∧
      ∃ e, r.failure = some e ∧ e ≠ .depth ∧ e ≠ .insufficientBalance ∧ e ≠ .nonceOverflow) ∧
    (∃ o s, tx.Passes block precompiles (.ofSource source) (.ended o) s ∧
      tx.settle block o s = .ok r s' ∧
      s.substate.refund = 0 ∧ r.refund = min 0 ((tx.gasLimit - o.gasLeft) / 5) ∧
      r.gasUsed + r.refund = tx.gasLimit - o.gasLeft) ∧
    r.refund ≤ 0 ∧ (r.refund = 0 ↔ 0 ≤ r.gasUsed + r.refund) ∧
    (tx.NonNegative block precompiles source → r.refund = 0) := by
  intro price fee after
  obtain ⟨o, s, hended, hsettle⟩ := exists_ended_of_apply happly
  have hsettles := settles_of_settle hsettle
  obtain ⟨hofExit, hfailure, hcreated, -, -⟩ := hsettles.receipt
  have hexit : o.exit ≠ .halted := fun h => hstatus (hofExit.trans (congrArg Status.ofExit h))
  obtain ⟨hfailed, -, hview⟩ := hended.ended_charged hexit
  obtain ⟨hself, hlogs, -⟩ :=
    hsettles.of_traceless (congrArg View.selfDestructs hview) (congrArg View.touched hview)
  have hadmissible := admissible_of_apply happly
  obtain ⟨hothers, hsender, hcoinbase⟩ := source_of_failed hended hsettles hexit hadmissible hnonce
  -- the refund counter stood at zero, so it is left to the share of the gas used
  -- whether the refund is negative
  obtain ⟨hcounter, hrefund, hspent⟩ := refund_of_failed hended hsettles hexit
  refine ⟨?_, hself, hcreated.trans hfailed.created, hothers, hsender, hcoinbase, fun h => ?_,
    ⟨o, s, hended, hsettle, hcounter, hrefund, hspent⟩, ?_, ?_, fun h => ?_⟩
  · rw [hlogs, hview]
    rfl
  · obtain ⟨hgas, e, he, hrefusal⟩ := hfailed.of_failure (hofExit.symm.trans h)
    have hlimit := hadmissible.gasLimit_pos
    exact ⟨by omega, by omega, e, hfailure.trans he, Failure.ne_of_not_isRefusal hrefusal⟩
  · omega
  · omega
  · have hle := (hended.ended_within h).le
    have hintrinsic := tx.size_lt_intrinsicGas
    omega

/-- A contract that is paid, stores a word, logs and then fails. -/
theorem storing_and_logging_then_failing_leaves_fees :
    let source : Source :=
      { accounts := ((∅ : Std.ExtTreeMap Address Account).insert 1 { balance := 1000000 }).insert 2
          { code := ⟨#[0x60, 1, 0x60, 0, 0x55, 0x60, 0, 0x60, 0, 0xa0, 0xfe]⟩ } }
    let tx : Transaction :=
      { sender := 1, nonce := 0, gasLimit := 60000, recipient := some 2, value := 5,
        gasPrice := 10 }
    let block : Block := { coinbase := 3, baseFee := 7 }
    ∃ r s', tx.apply block ∅ (.ofSource source) = .ok r s' ∧ r.status = .failure ∧
      r.gasUsed = 60000 ∧
      r.logs = [] ∧ s'.world.source.accounts[(2 : Address)]? = source.accounts[(2 : Address)]? ∧
      s'.world.source.accounts[(1 : Address)]? = some { nonce := 1, balance := 400000 } ∧
      s'.world.source.accounts[(3 : Address)]? = some { balance := 180000 } := by
  intro source tx block
  have hends : endsWith (fun r _ => decide (r.status = .failure))
      (tx.apply block ∅ (.ofSource source)) = true := by decide +kernel
  obtain ⟨r, s', happly, hfailed⟩ := endsWith_iff.mp hends
  rw [decide_eq_true_eq] at hfailed
  have hstatus : r.status ≠ .success := by
    rw [hfailed]
    decide
  obtain ⟨hlogs, -, -, hothers, hsender, hcoinbase, hfailure, -⟩ :=
    failed_transaction_changes_fees_and_nonce tx block ∅ source r s' (by decide) happly hstatus
  obtain ⟨hgasUsed, -⟩ := hfailure hfailed
  refine ⟨r, s', happly, hfailed, hgasUsed, hlogs, hothers 2 (by decide) (by decide), ?_, ?_⟩
  · rw [hgasUsed] at hsender
    exact hsender
  · rw [hgasUsed] at hcoinbase
    exact hcoinbase (by decide)

/-- **A refund can be taken from a transaction that did not succeed.** In a block with
a negative number, a contract hashes as many bytes of memory as that number says, gets
gas back for it and reverts. -/
theorem negative_block_number_makes_reverted_refund_negative :
    let sender : Address := 0x5e5e5e5e5e5e5e5e5e5e5e5e5e5e5e5e5e5e5e5e
    let recipient : Address := 0xc0c0c0c0c0c0c0c0c0c0c0c0c0c0c0c0c0c0c0c0
    let source : Source :=
      { accounts :=
          ((∅ : Std.ExtTreeMap Address Account).insert sender { balance := 1000000 }).insert
          recipient { code := ⟨#[0x43, 0x60, 0, 0x20, 0x60, 0, 0x60, 0, 0xfd]⟩ } }
    let block : Block :=
      { coinbase := 0xcbcbcbcbcbcbcbcbcbcbcbcbcbcbcbcbcbcbcbcb, number := -1000000 }
    let tx : Transaction := { sender, nonce := 0, gasLimit := 100000, recipient := some recipient }
    ∃ r s', tx.apply block ∅ (.ofSource source) = .ok r s' ∧ r.status = .revert ∧
      r.refund = -33292 := by
  intro sender recipient source block tx
  have hends : endsWith (fun r _ => decide (r.status = .revert ∧ r.refund = -33292))
      (tx.apply block ∅ (.ofSource source)) = true := by decide +kernel
  obtain ⟨r, s', happly, hr⟩ := endsWith_iff.mp hends
  rw [decide_eq_true_eq] at hr
  exact ⟨r, s', happly, hr⟩

end Transaction

end EvmCore
