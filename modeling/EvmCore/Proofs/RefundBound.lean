import EvmCore.Proofs.Atomicity
import EvmCore.Proofs.Expense
import EvmCore.Proofs.Stops
import Mathlib

/-!
# The refund counter of a transaction

From the start of its call or creation until the outermost frame has ended, a transaction keeps a
refund counter that pays for every slot that it has cleared: the counter holds at least 4800 for
each slot of an older contract that held a word before the transaction and holds none now.
Instructions, creations and reverts all keep this, as they keep `View.RefundCovered`, and what a
slot held before the transaction is still known (`View.SameInitial`). So the counter is never asked
for more than it holds, and it is not negative when the transaction is settled.

The refund itself is a fifth of the gas used, if that is less than the counter. It is negative
exactly if the execution gave back more gas than the transaction had. Nothing but a negative number
in the block, in the accounts or in the price of a contract that is built into the machine can bring
that about (`Transaction.Passes.ended_within`), but a block with a negative number is enough
(`Transaction.negative_block_number_makes_refund_negative`).
-/

namespace EvmCore

/-! ### What slots held before the transaction -/

namespace View

/-- What the slots held before the transaction stays known. -/
def SameInitial (v v' : View) : Prop := v'.initial = v.initial

instance : Std.Refl SameInitial := ⟨fun _ => rfl⟩

instance : IsTrans View SameInitial := ⟨fun _ _ _ h h' => Eq.trans h' h⟩

namespace SameInitial

theorem touch (v : View) (a : Address) : SameInitial v (v.touch a) := by
  obtain htouch | htouch := v.touch_cases a
  · rw [htouch]
    rfl
  · rw [htouch]
    rfl

/-- Moving value leaves the initial storage. -/
theorem payable : Payable SameInitial where
  balance _ := rfl
  touch := touch
  markTouched _ _ := rfl
  addSelfDestruct _ _ := rfl

/-- **The initial storage is respected** by all that a frame does. -/
theorem respected : Respected SameInitial fun _ => True where
  storeSlot := by
    intro a key value v v' _ h
    obtain ⟨refund, rfl⟩ := storeSlot_ok h
    rfl
  addLog _ _ := rfl
  selfDestruct h := payable.selfDestruct _ _ h
  moveValue _ h := payable.moveValue _ h
  spendNonce _ _ := rfl
  enterCreation _ h := payable.enterCreation rfl h
  deployCode _ _ _ := rfl

end SameInitial

end View

/-! ### The slots that are cleared -/

/-- The slots that a transaction has cleared: those of contracts that it did not create itself,
which hold a word in `source` and hold none now. -/
def State.clearedSlots (source : Source) (s : State) : Set (Address × Word) :=
  {slot | slot.1 ∉ s.world.created ∧ ((source.accounts[slot.1]?).getD {}).storage.read slot.2 ≠ 0 ∧
    ((s.world.shown slot.1).getD {}).storage.read slot.2 = 0}

namespace State

variable {source : Source} {s : State}

/-- A slot that was cleared since the source was read is a cleared one of what is shown. -/
theorem cleared_of_mem (h : View.SameInitial (ofSource source).view s.view) {slot : Address × Word}
    (hslot : slot ∈ s.clearedSlots source) : s.view.Cleared slot.1 slot.2 := by
  obtain ⟨hold, hinitial, hread⟩ := hslot
  have hcreated : ¬s.view.created.contains slot.1 = true := hold
  refine ⟨?_, hread⟩
  rw [View.initialWord, if_neg hcreated, h, initial_ofSource]
  exact hinitial

/-- **A refund counter that is covered pays for the slots that are cleared**, of
which there are finitely many. -/
theorem clearedSlots_paid (h : View.SameInitial (ofSource source).view s.view)
    (hcovered : s.view.RefundCovered) : (s.clearedSlots source).Finite ∧
      Gas.storeClearRefund * ((s.clearedSlots source).ncard : Int) ≤ s.substate.refund := by
  obtain ⟨slots, hslots, hpaid⟩ := hcovered
  -- the counter pays for a finite set of slots, and these are among them
  have hsubset : s.clearedSlots source ⊆ ↑slots := fun slot hslot =>
    Finset.mem_coe.mpr (hslots slot.1 slot.2 (cleared_of_mem h hslot))
  have hcard : ((s.clearedSlots source).ncard : Int) ≤ slots.card := by
    have hle := Set.ncard_le_ncard hsubset slots.finite_toSet
    rw [Set.ncard_coe_finset] at hle
    exact Int.ofNat_le.mpr hle
  refine ⟨slots.finite_toSet.subset hsubset, ?_⟩
  calc Gas.storeClearRefund * ((s.clearedSlots source).ncard : Int)
      ≤ Gas.storeClearRefund * slots.card := mul_le_mul_of_nonneg_left hcard (by decide)
    _ ≤ s.substate.refund := hpaid

end State

namespace Transaction

/-! ### While a transaction is executed -/

/-- The points from the start of the call or the creation of a transaction until
its outermost frame has ended. -/
def Phase.Executing : Phase → Prop
  | .running _ | .ended _ => True
  | _ => False

section Executing

variable {Ψ : View → View → Prop} [Std.Refl Ψ] [IsTrans View Ψ] {tx : Transaction} {block : Block}
  {precompiles : Std.ExtTreeMap Address Precompile} {s₀ s : State}

/-- While the machine runs, one layer is open for each frame, above a state
that is related to the first. -/
theorem Passes.running_nested {m : Machine} (h : Passes tx block precompiles s₀ (.running m) s)
    (hΨ : Respected Ψ fun _ => True)
    (hbuy : ∀ (a : Address) (x : Int), Keeps Ψ (View.setBalance a x)) :
    (∃ c : State, Ψ s₀.view c.view ∧ m.Nested Ψ c.opened 0) ∧ m.state = s := by
  refine h.running_induction (P := fun m => ∃ c : State, Ψ s₀.view c.view ∧ m.Nested Ψ c.opened 0)
    (fun hwarmed hstart => ?_) fun _ hm hiterate => ?_
  · -- the gas is bought and the call or creation is started, and then the frame is entered
    obtain ⟨-, -, hbought⟩ := hwarmed.bought
    obtain ⟨c, hbefore, hafter⟩ := start_frame_moves hΨ.creation hΨ.call hstart
    exact ⟨c, IsTrans.trans _ _ _ (hbuy _ _ hbought) hbefore.respects, [], rfl, .root hafter⟩
  · obtain ⟨c, hc, hnested⟩ := hm
    exact ⟨c, hc, (Machine.iterates_of_iterate hiterate).nested hnested (Nat.zero_le _)
      (hΨ.frame (fun _ _ _ => trivial) _)⟩

/-- **What every change of a machine respects holds over the whole execution.** -/
theorem Passes.executing_respects {p : Phase} (h : Passes tx block precompiles s₀ p s)
    (hp : p.Executing) (hΨ : Respected Ψ fun _ => True)
    (hbuy : ∀ (a : Address) (x : Int), Keeps Ψ (View.setBalance a x)) :
    Ψ s₀.view s.view := by
  cases p with
  | running m =>
    obtain ⟨⟨c, hc, cs, -, hlayered⟩, rfl⟩ := h.running_nested hΨ hbuy
    exact IsTrans.trans _ _ _ hc hlayered.respects
  | ended o =>
    cases h with
    | skip hwarmed hstart =>
      obtain ⟨-, -, hbought⟩ := hwarmed.bought
      have hmoves := start_done_moves hΨ.creation hΨ.call hstart
      exact IsTrans.trans _ _ _ (hbuy _ _ hbought) hmoves.respects
    | finish hrunning hiterate =>
      obtain ⟨⟨c, hc, hnested⟩, -⟩ := hrunning.running_nested hΨ hbuy
      obtain ⟨hnone, -⟩ | ⟨o', -, hwaiting, hleaves⟩ := Machine.iterate_cases hiterate
      · cases hnone
      · -- the layer of the outermost frame is the only one left, and it is closed
        have hopened := hnested.moves (congrArg List.length hwaiting)
        have hleft := hleaves.moves (hΨ.frame (fun _ _ _ => trivial) _) hopened
        exact IsTrans.trans _ _ _ hc hleft.respects
  | _ => exact hp.elim

end Executing

section Applying

variable {tx : Transaction} {block : Block} {precompiles : Std.ExtTreeMap Address Precompile}
  {source : Source} {s s' : State} {o : Outcome} {e : Fault}

/-- **The refund counter is covered** as long as the transaction is executed. -/
theorem Passes.covered {p : Phase} (h : Passes tx block precompiles (.ofSource source) p s)
    (hp : p.Executing) : s.view.RefundCovered :=
  h.executing_respects hp View.RefundCovered.respected
    (fun a x _ _ _ hset => (View.ClearsNone.payable.setBalance a x hset).covered)
    (State.refundCovered_ofSource source)

/-- The initial storage stays that of the source. -/
theorem Passes.sameInitial {p : Phase} (h : Passes tx block precompiles (.ofSource source) p s)
    (hp : p.Executing) : View.SameInitial (State.ofSource source).view s.view :=
  h.executing_respects hp View.SameInitial.respected View.SameInitial.payable.setBalance

/-! ### Where a transaction comes to a fault -/

/-- Settling comes to no fault of the refund counter. -/
theorem settle_admitted (ctx : Context) (tx : Transaction) (block : Block) (o : Outcome) :
    Admitted ctx (fun _ => ()) (tx.settle block o) := by
  have hflush : Admitted ctx (fun _ => ()) World.flush := by
    intro s
    cases h : World.flush s with
    | ok u s' => exact ⟨rfl, id⟩
    | error e s' =>
      obtain ⟨a, -, rfl, -⟩ := World.flush_error h
      exact ⟨rfl, fun _ => .inl trivial⟩
  -- up to the write-back the source is left alone, which is not asked for here
  exact Upholds.get.bind fun _ => (Admitted.addBalance _ _).forget.bind fun _ =>
    (Admitted.addBalance _ _).forget.bind fun _ =>
    (Admitted.of_writes (Substate.touch_mirrors _)).forget.bind fun _ =>
    (removeAccounts_admitted ctx).forget.bind fun _ => hflush.bind fun _ =>
    (Admitted.emit _).forget.bind fun _ => Upholds.get.bind fun _ => .pure _

/-- **A transaction never asks the refund counter for more than it holds.** -/
theorem apply_admits (h : tx.apply block precompiles (.ofSource source) = .error e s') :
    (tx.context block precompiles).Admits e := by
  have hread (a : Address) : (tx.context block precompiles).Admits (.unreadable a) := .inl trivial
  -- phase by phase: where one fails, the fault is one that is admitted
  rcases bind_error_iff.mp h with h | ⟨_, s₁, hvalidate, h⟩
  · obtain ⟨-, ⟨reason, rfl⟩ | ⟨a, -, rfl⟩⟩ := (tx.validate_looks block).error h
    · exact .inl trivial
    · exact hread a
  rcases bind_error_iff.mp h with h | ⟨_, s₂, hbuy, h⟩
  · exact (Admitted.subBalance _ _).error trivial h
  rcases bind_error_iff.mp h with h | ⟨_, s₃, hwarm, h⟩
  · obtain ⟨-, hfalse | ⟨a, -, rfl⟩⟩ := (tx.warmUp_looks _).error h
    · exact hfalse.elim
    · exact hread a
  have hwarmed : tx.Passes block precompiles (.ofSource source) .warmed s₃ :=
    ((Passes.begin.validate hvalidate).buy hbuy).warm hwarm
  rcases bind_error_iff.mp h with h | ⟨start, s₄, hstart, h⟩
  · exact (tx.start_admitted _).error trivial h
  rcases bind_error_iff.mp h with h | ⟨o, s₅, hfinish, h⟩
  · cases start with
    | done o => exact absurd h pure_ne_error
    | frame entry =>
      obtain ⟨k, m, hrun⟩ := Start.finish_frame_error h
      have hentered : s₄.Covered := (hwarmed.enter hstart).covered trivial
      exact Machine.run_error rfl hentered hrun
  · exact (settle_admitted _ tx block o).error trivial h

end Applying

/-- **The refund counter pays for the slots that are cleared.** At every point of the execution of a
transaction, the slots of older contracts that held a word before and hold none now are finitely
many, and the counter holds at least 4800 for each of them. So no fault says that the counter would
fall below zero, unless it is one that a contract built into the machine reports by itself; and the
counter that settling starts from is not negative. What is refunded is a fifth of the gas used, if
that is less: it is negative exactly if the execution gave back more gas than the transaction had,
and not at all if nothing was negative to begin with. -/
theorem refund_counter_pays_for_cleared_slots (tx : Transaction) (block : Block)
    (precompiles : Std.ExtTreeMap Address Precompile) (source : Source) :
    (∀ (p : Phase) (s : State), p.Executing → tx.Passes block precompiles (.ofSource source) p s →
      (s.clearedSlots source).Finite ∧
      4800 * ((s.clearedSlots source).ncard : Int) ≤ s.substate.refund) ∧
    (∀ (gas refund : Int) (s' : State),
      tx.apply block precompiles (.ofSource source) = .error (.negativeRefund gas refund) s' →
      (tx.context block precompiles).Reports (.negativeRefund gas refund)) ∧
    (∀ (r : Receipt) (s' : State), tx.apply block precompiles (.ofSource source) = .ok r s' →
      ∃ (o : Outcome) (s : State), tx.Passes block precompiles (.ofSource source) (.ended o) s ∧
        tx.settle block o s = .ok r s' ∧ 0 ≤ s.substate.refund ∧
        r.refund = min s.substate.refund ((tx.gasLimit - o.gasLeft) / 5) ∧
        (r.refund < 0 ↔ tx.gasLimit < o.gasLeft) ∧
        (tx.NonNegative block precompiles source → 0 ≤ r.refund)) := by
  refine ⟨fun p s hp hpasses => ?_, fun gas refund s' happly => ?_, fun r s' happly => ?_⟩
  · exact State.clearedSlots_paid (hpasses.sameInitial hp) (hpasses.covered hp)
  · exact (apply_admits happly).resolve_left fun hspares => hspares
  · obtain ⟨o, s, hended, hsettle⟩ := exists_ended_of_apply happly
    obtain ⟨-, -, -, -, hrefund⟩ := (settles_of_settle hsettle).receipt
    have hcounter : 0 ≤ s.substate.refund := (hended.covered trivial).nonneg
    have hshare : r.refund = min s.substate.refund ((tx.gasLimit - o.gasLeft) / 5) := hrefund
    refine ⟨o, s, hended, hsettle, hcounter, hshare, ?_, fun h => ?_⟩
    · -- the counter is not negative, so only the share of the gas can be
      rw [hshare, min_lt_iff]
      omega
    · have hwithin := hended.ended_within h
      have hle := hwithin.le
      have hintrinsic := tx.size_lt_intrinsicGas
      rw [hshare]
      exact le_min hcounter (by omega)

/-- A contract that clears its only slot. -/
theorem clearing_a_slot_is_paid_for :
    let source : Source :=
      { accounts := ((∅ : Std.ExtTreeMap Address Account).insert 1 { balance := 1000000 }).insert 2
          { code := ⟨#[0x60, 0, 0x60, 0, 0x55, 0]⟩, storage := (∅ : Storage).write 0 1 } }
    let tx : Transaction :=
      { sender := 1, nonce := 0, gasLimit := 60000, recipient := some 2, gasPrice := 1 }
    (∃ m, tx.Passes {} ∅ (.ofSource source) (.running m) m.state ∧
      (2, 0) ∈ m.state.clearedSlots source ∧
      m.state.substate.refund = 4800 ∧ 4800 * ((m.state.clearedSlots source).ncard : Int) ≤ 4800) ∧
    (∃ r s', tx.apply {} ∅ (.ofSource source) = .ok r s' ∧ r.refund = 4800 ∧
      ∃ o s, tx.Passes {} ∅ (.ofSource source) (.ended o) s ∧
        r.refund = min s.substate.refund ((60000 - o.gasLeft) / 5) ∧ ¬60000 < o.gasLeft) := by
  intro source tx
  obtain ⟨hexecuting, -, hsettled⟩ := tx.refund_counter_pays_for_cleared_slots {} ∅ source
  constructor
  · -- after the first three instructions
    have hcleared : (tx.runningAt {} ∅ (.ofSource source) 3).any (fun m => decide
        (2 ∉ m.state.world.created ∧
          ((source.accounts[(2 : Address)]?).getD {}).storage.read 0 ≠ 0 ∧
          ((m.state.world.shown 2).getD {}).storage.read 0 = 0 ∧
          m.state.substate.refund = 4800)) = true := by
      decide +kernel
    obtain ⟨m, hm, hcleared⟩ := (Option.any_eq_true _ _).mp hcleared
    obtain ⟨hold, hheld, hread, hcounter⟩ := of_decide_eq_true hcleared
    have hpasses := passes_of_runningAt hm
    obtain ⟨-, hpaid⟩ := hexecuting (.running m) m.state trivial hpasses
    exact ⟨m, hpasses, ⟨hold, hheld, hread⟩, hcounter, hcounter ▸ hpaid⟩
  · have hpaid : endsWith (fun r _ => decide (r.refund = 4800))
        (tx.apply {} ∅ (.ofSource source)) = true := by decide +kernel
    obtain ⟨r, s', happly, hrefund⟩ := endsWith_iff.mp hpaid
    rw [decide_eq_true_eq] at hrefund
    obtain ⟨o, s, hended, -, -, hshare, hnegative, -⟩ := hsettled r s' happly
    refine ⟨r, s', happly, hrefund, o, s, hended, hshare, fun hgas => ?_⟩
    have hbelow := hnegative.mpr hgas
    omega

/-- **The refund can be negative.** In a block with a negative number, a contract hashes as many
bytes of memory as that number says, gets gas back for it and halts. -/
theorem negative_block_number_makes_refund_negative :
    let sender : Address := 0x5e5e5e5e5e5e5e5e5e5e5e5e5e5e5e5e5e5e5e5e
    let recipient : Address := 0xc0c0c0c0c0c0c0c0c0c0c0c0c0c0c0c0c0c0c0c0
    let source : Source :=
      { accounts :=
          ((∅ : Std.ExtTreeMap Address Account).insert sender { balance := 1000000 }).insert
          recipient { code := ⟨#[0x43, 0x60, 0, 0x20, 0]⟩ } }
    let block : Block :=
      { coinbase := 0xcbcbcbcbcbcbcbcbcbcbcbcbcbcbcbcbcbcbcbcb, number := -1000000 }
    let tx : Transaction := { sender, nonce := 0, gasLimit := 100000, recipient := some recipient }
    ∃ r s', tx.apply block ∅ (.ofSource source) = .ok r s' ∧ r.status = .success ∧
      r.refund = -33293 := by
  intro sender recipient source block tx
  have hends : endsWith (fun r _ => decide (r.status = .success ∧ r.refund = -33293))
      (tx.apply block ∅ (.ofSource source)) = true := by decide +kernel
  obtain ⟨r, s', happly, hr⟩ := endsWith_iff.mp hends
  rw [decide_eq_true_eq] at hr
  exact ⟨r, s', happly, hr⟩

end Transaction

end EvmCore
