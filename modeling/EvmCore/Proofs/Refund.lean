import EvmCore.Proofs.NonNegative
import Mathlib

/-!
# The refund counter

Clearing a slot that held a word before the transaction raises the refund counter, and setting such
a slot again lowers it by as much. The counter can be lowered only because it was raised for the
same slot before: there is a finite set of slots that has all the cleared ones in it and that the
counter pays for (`View.RefundCovered`). Everything that a machine does keeps this
(`View.RefundCovered.respected`), and where it holds, no write to storage is refused
(`View.storeSlot_eq`). Creating a contract clears no slot, as what a slot of a new contract held
before the transaction counts as zero.
-/

namespace EvmCore

namespace Gas

/-- What the refund counter holds for a slot: the credit for clearing it, if it is cleared. -/
def clearingCredit (initial current : Int) : Int :=
  if initial ≠ 0 ∧ current = 0 then storeClearRefund else 0

/-- **A write to a slot pays for its own credit**: what it brings in, with the credit that the slot
had, covers the credit that the slot has then. -/
theorem clearingCredit_le (initial current value : Int) (cold : Bool) :
    clearingCredit initial value ≤
      (store initial current value cold).refund + clearingCredit initial current := by
  have hrestoring : 0 ≤ if initial = value then
      if initial = 0 then storeSet - warmAccess else storeReset - warmAccess else 0 := by
    split
    · split
      · decide
      · decide
    · exact le_rfl
  -- a write that changes nothing brings nothing
  by_cases hsame : current = value
  · rw [store, if_pos hsame, hsame]
    exact (Int.zero_add _).ge
  · rw [store, if_neg hsame]
    by_cases hclean : initial = current
    · -- the first change to a slot, which is cleared only if it held something
      subst hclean
      by_cases hzero : initial = 0
      · simp [clearingCredit, hzero]
      · simp [clearingCredit, hzero]
    · rw [if_neg hclean]
      dsimp only [dirtyRefund]
      by_cases hzero : initial = 0
      · simpa [clearingCredit, hzero] using hrestoring
      · by_cases hcurrent : current = 0
        · -- the credit is taken back, and the slot is not cleared any more
          have hvalue : value ≠ 0 := fun hvalue => hsame (hcurrent.trans hvalue.symm)
          simp only [clearingCredit, hzero, hcurrent, hvalue, ne_eq, not_false_eq_true, and_false,
            and_self, if_true, if_false] at hrestoring ⊢
          omega
        · simp only [clearingCredit, hzero, hcurrent, ne_eq, not_false_eq_true, true_and, and_false,
            if_false] at hrestoring ⊢
          split
          · omega
          · omega

end Gas

namespace View

/-- A slot that held a word before the transaction and holds none now. -/
def Cleared (v : View) (a : Address) (key : Word) : Prop :=
  v.initialWord a key ≠ 0 ∧ (v.get a).storage.read key = 0

/-- The refund counter pays for all the slots that are cleared. -/
def RefundCovered (v : View) : Prop :=
  ∃ slots : Finset (Address × Word), (∀ a key, v.Cleared a key → (a, key) ∈ slots) ∧
    Gas.storeClearRefund * slots.card ≤ v.refund

/-- A counter that pays for some slots is not negative. -/
theorem RefundCovered.nonneg {v : View} (h : v.RefundCovered) : 0 ≤ v.refund := by
  obtain ⟨slots, -, hpaid⟩ := h
  have hclear : 0 ≤ Gas.storeClearRefund := by decide
  exact (Int.mul_nonneg hclear (Int.natCast_nonneg _)).trans hpaid

/-! ### Writing storage -/

/-- What is shown after a slot was written and the refund counter adjusted. -/
def stored (v : View) (a : Address) (key value : Word) : View :=
  { v with
    refund := v.refund +
      (Gas.store (v.initialWord a key) ((v.get a).storage.read key) value false).refund }.update a
    fun account => { account with storage := account.storage.write key value }

/-- Whether the slot that was written is cleared then. -/
theorem stored_cleared_self {v : View} {a : Address} {key value : Word} :
    (v.stored a key value).Cleared a key ↔ v.initialWord a key ≠ 0 ∧ value = 0 := by
  have hread : ((v.stored a key value).get a).storage.read key = value := by
    rw [stored, get_update, if_pos rfl]
    dsimp only
    rw [Storage.read_write, if_pos rfl]
  rw [Cleared, hread]
  rfl

/-- The other slots are cleared as they were. -/
theorem stored_cleared_of_ne {v : View} {a b : Address} {key key' value : Word}
    (h : (b, key') ≠ (a, key)) :
    (v.stored a key value).Cleared b key' ↔ v.Cleared b key' := by
  have hread : ((v.stored a key value).get b).storage.read key' = (v.get b).storage.read key' := by
    rw [stored, get_update]
    split
    · next hb =>
      subst hb
      dsimp only
      rw [Storage.read_write, if_neg fun hkey : key = key' => h (hkey ▸ rfl)]
      rfl
    · rfl
  rw [Cleared, hread]
  rfl

/-- **A write to storage keeps the refund counter covered.** -/
theorem RefundCovered.stored {v : View} (hv : v.RefundCovered) (a : Address) (key value : Word) :
    (v.stored a key value).RefundCovered := by
  classical
  obtain ⟨slots, hslots, hpaid⟩ := hv
  -- the slot goes in or out of the set, and what it brings pays for that
  have hcredit := Gas.clearingCredit_le (v.initialWord a key)
    ((v.get a).storage.read key) value false
  have hbrought : (v.stored a key value).refund = v.refund +
      (Gas.store (v.initialWord a key) ((v.get a).storage.read key) value false).refund := rfl
  have hbefore : Gas.clearingCredit (v.initialWord a key) ((v.get a).storage.read key) =
      if v.Cleared a key then Gas.storeClearRefund else 0 := if_congr Iff.rfl rfl rfl
  have hself (hcleared : v.Cleared a key) : (a, key) ∈ slots := hslots a key hcleared
  have hother (b : Address) (key' : Word) (hne : (b, key') ≠ (a, key))
      (hcleared : (v.stored a key value).Cleared b key') : (b, key') ∈ slots :=
    hslots b key' ((stored_cleared_of_ne hne).mp hcleared)
  rw [hbefore, Gas.clearingCredit] at hcredit
  by_cases hclears : v.initialWord a key ≠ 0 ∧ value = 0
  · rw [if_pos hclears] at hcredit
    refine ⟨insert (a, key) slots, fun b key' hcleared => ?_, ?_⟩
    · -- the slot that was written, and the others
      by_cases hslot : (b, key') = (a, key)
      · exact hslot ▸ Finset.mem_insert_self _ _
      · exact Finset.mem_insert_of_mem (hother b key' hslot hcleared)
    · by_cases hwas : v.Cleared a key
      · rw [if_pos hwas] at hcredit
        rw [Finset.insert_eq_self.mpr (hself hwas), hbrought]
        omega
      · rw [if_neg hwas] at hcredit
        have hcard : ((insert (a, key) slots).card : Int) ≤ slots.card + 1 :=
          Int.ofNat_le.mpr (Finset.card_insert_le _ _)
        calc Gas.storeClearRefund * ((insert (a, key) slots).card : Int)
            ≤ Gas.storeClearRefund * (slots.card + 1) := mul_le_mul_of_nonneg_left hcard (by decide)
          _ = Gas.storeClearRefund * slots.card + Gas.storeClearRefund := by ring
          _ ≤ (v.stored a key value).refund := by omega
  · -- the slot is not cleared any more, and leaves the set
    rw [if_neg hclears] at hcredit
    refine ⟨slots.erase (a, key), fun b key' hcleared => ?_, ?_⟩
    · have hne : (b, key') ≠ (a, key) := by
        intro hslot
        obtain ⟨rfl, rfl⟩ := Prod.mk.inj hslot
        exact hclears (stored_cleared_self.mp hcleared)
      exact Finset.mem_erase.mpr ⟨hne, hother b key' hne hcleared⟩
    · by_cases hwas : v.Cleared a key
      · rw [if_pos hwas] at hcredit
        have hcard : ((slots.erase (a, key)).card : Int) + 1 = slots.card :=
          Int.ofNat_inj.mpr (Finset.card_erase_add_one (hself hwas))
        rw [← hcard, mul_add, mul_one] at hpaid
        omega
      · rw [if_neg hwas] at hcredit
        have hcard : ((slots.erase (a, key)).card : Int) ≤ slots.card :=
          Int.ofNat_le.mpr Finset.card_erase_le
        calc Gas.storeClearRefund * ((slots.erase (a, key)).card : Int)
            ≤ Gas.storeClearRefund * slots.card := mul_le_mul_of_nonneg_left hcard (by decide)
          _ ≤ (v.stored a key value).refund := by omega

/-- The counter can be adjusted as long as it does not fall below zero. -/
theorem adjustRefund_of_nonneg {v : View} {refund : Int} (h : 0 ≤ v.refund + refund) :
    adjustRefund refund v = .ok () { v with refund := v.refund + refund } := by
  rw [adjustRefund]
  split
  · rfl
  · split
    · rw [subRefund, if_neg (by omega), sub_neg_eq_add]
    · obtain rfl : refund = 0 := by omega
      rw [Int.add_zero]
      rfl

/-- **No write to storage is refused.** -/
theorem storeSlot_eq {v : View} (hv : v.RefundCovered) (a : Address) (key value : Word) :
    storeSlot a key value v = .ok () (v.stored a key value) := by
  rw [storeSlot, get_bind]
  exact bind_of_ok (adjustRefund_of_nonneg (hv.stored a key value).nonneg)

/-! ### Everything else -/

/-- The refund counter stays, and no slot is cleared. -/
structure ClearsNone (v v' : View) : Prop where
  refund : v'.refund = v.refund
  cleared : ∀ a key, v'.Cleared a key → v.Cleared a key

instance : Std.Refl ClearsNone := ⟨fun _ => ⟨rfl, fun _ _ h => h⟩⟩

instance : IsTrans View ClearsNone :=
  ⟨fun _ _ _ h h' => ⟨h'.refund.trans h.refund,
    fun a key hc => h.cleared a key (h'.cleared a key hc)⟩⟩

/-- Where no slot is cleared, the counter pays for what it paid for. -/
theorem ClearsNone.covered {v v' : View} (h : ClearsNone v v') : Carries RefundCovered v v' := by
  rintro ⟨slots, hslots, hpaid⟩
  exact ⟨slots, fun a key hcleared => hslots a key (h.cleared a key hcleared), h.refund ▸ hpaid⟩

/-- Whatever leaves the storage alone. -/
theorem ClearsNone.of_storage_eq {v v' : View} (hrefund : v'.refund = v.refund)
    (hinitial : v'.initial = v.initial) (hcreated : v'.created = v.created)
    (hstorage : ∀ a, (v'.get a).storage = (v.get a).storage) : ClearsNone v v' := by
  refine ⟨hrefund, fun a key hcleared => ?_⟩
  rw [Cleared, initialWord, hinitial, hcreated, hstorage] at hcleared
  exact hcleared

/-- Whatever leaves the accounts alone. -/
theorem ClearsNone.of_account_eq {v v' : View} (haccount : v'.account = v.account)
    (hrefund : v'.refund = v.refund) (hinitial : v'.initial = v.initial)
    (hcreated : v'.created = v.created) : ClearsNone v v' := by
  refine .of_storage_eq hrefund hinitial hcreated fun a => ?_
  rw [View.get, haccount]
  rfl

/-- Replacing an account by one with the same storage. -/
theorem ClearsNone.set (v : View) {a : Address} {account : Option Account}
    (h : (account.getD {}).storage = (v.get a).storage) : ClearsNone v (v.set a account) := by
  refine .of_storage_eq rfl rfl rfl fun b => ?_
  rw [get_set]
  split
  · next hb => rw [h, hb]
  · rfl

theorem ClearsNone.update (v : View) {a : Address} {f : Account → Account}
    (h : ∀ account, (f account).storage = account.storage) : ClearsNone v (v.update a f) :=
  .set v (h (v.get a))

theorem ClearsNone.touch (v : View) (a : Address) : ClearsNone v (v.touch a) := by
  obtain htouch | htouch := v.touch_cases a
  · rw [htouch]
    exact Std.Refl.refl v
  · rw [htouch]
    exact .update v fun _ => rfl

/-- A new contract has no slot that held anything before. -/
theorem ClearsNone.create (v : View) (a : Address) : ClearsNone v (v.create a) := by
  refine ⟨rfl, fun b key hcleared => ?_⟩
  obtain ⟨hinitial, hread⟩ := hcleared
  -- what a slot of the contract held before counts as zero, and other slots are as they were
  by_cases hb : b = a
  · have hcreated : (v.create a).created.contains b = true := by
      rw [hb]
      exact Std.ExtTreeSet.contains_insert_self
    exact absurd (if_pos hcreated) hinitial
  · have hcreated : (v.create a).created.contains b = v.created.contains b :=
      Std.ExtTreeSet.contains_insert.trans (by simp [Ne.symm hb])
    have hget : (v.create a).get b = v.get b := (get_set v a _ b).trans (if_neg hb)
    rw [initialWord, hcreated] at hinitial
    exact ⟨hinitial, hget ▸ hread⟩

/-- No movement of value clears a slot. -/
theorem ClearsNone.payable : Payable ClearsNone where
  balance _ := .update _ fun _ => rfl
  touch v a := .touch v a
  markTouched _ _ := .of_account_eq rfl rfl rfl rfl
  addSelfDestruct _ _ := .of_account_eq rfl rfl rfl rfl

/-- **Whatever a machine does keeps the refund counter covered.** -/
theorem RefundCovered.respected : Respected (Carries RefundCovered) fun _ => True where
  storeSlot := by
    intro a key value v v' _ h hv
    rw [storeSlot_eq hv] at h
    obtain ⟨-, rfl⟩ := EStateM.Result.ok.inj h
    exact hv.stored a key value
  addLog v log := by
    have hlog : ClearsNone v (v.addLog log) := .of_account_eq rfl rfl rfl rfl
    exact hlog.covered
  selfDestruct h := (ClearsNone.payable.selfDestruct _ _ h).covered
  moveValue _ h := (ClearsNone.payable.moveValue _ h).covered
  spendNonce c v := by
    have hspent : ClearsNone v (c.spendNonce v) := .update v fun _ => rfl
    exact hspent.covered
  enterCreation _ h := (ClearsNone.payable.enterCreation (.create _ _) h).covered
  deployCode v a code := by
    have hdeployed : ClearsNone v (v.update a ({ · with code })) := .update v fun _ => rfl
    exact hdeployed.covered

end View

end EvmCore
