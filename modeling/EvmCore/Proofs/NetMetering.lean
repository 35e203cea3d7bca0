import EvmCore.Gas.Storage
import Mathlib

/-!
# Writes to a slot are charged by their net effect

What a write to a storage slot costs, and what it adds to the refund counter or takes from it,
depends on what the slot held before the transaction, on what it holds and on what is written. Over
many writes to one slot refunds are granted, withdrawn and granted again. All the same, what remains
of it depends on the last word alone. Each write pays for an access; beyond that, the cost less the
refund of a write is a difference, `netCharge initial value - netCharge initial current`
(`store_net`), so over a sequence of writes everything in between cancels out (`storeCharges_net`).
-/

namespace EvmCore

namespace Gas

/-- What it costs, beyond the accesses, that a slot which held `initial` before the transaction
holds `value` after it. A slot that is cleared earns more than it costs. -/
def netCharge (initial value : Int) : Int :=
  if value = initial then 0
  else if initial = 0 then 19900
  else if value = 0 then -2000
  else 2800

/-- The charges for words that are written one after another to a warm slot that holds `current`. -/
def storeCharges (initial current : Int) : List Int → List StoreCharge
  | [] => []
  | value :: rest => store initial current value false :: storeCharges initial value rest

/-- A slot that the transaction changes for the first time. -/
theorem store_net_of_clean {initial value : Int} (h : initial ≠ value) :
    (store initial initial value false).cost - (store initial initial value false).refund =
      100 + netCharge initial value := by
  simp only [store, netCharge, if_neg h, if_neg (Ne.symm h), if_true, Bool.false_eq_true, if_false,
    storeSet, storeReset, storeClearRefund, coldSlot]
  -- a slot that was zero is set, and any other is reset or cleared
  by_cases hzero : initial = 0
  · simp only [if_pos hzero]
    omega
  · simp only [if_neg hzero]
    split
    · omega
    · omega

/-- A slot that was changed already: what the earlier changes were charged is made up for. -/
theorem store_net_of_dirty {initial current value : Int} (hdirty : initial ≠ current)
    (h : current ≠ value) :
    (store initial current value false).cost - (store initial current value false).refund =
      100 + netCharge initial value - netCharge initial current := by
  simp only [store, if_neg h, if_neg hdirty, Bool.false_eq_true, if_false, dirtyRefund, netCharge,
    if_neg (Ne.symm hdirty), storeSet, storeReset, storeClearRefund, coldSlot, warmAccess]
  by_cases hrestores : initial = value
  · -- back to what the slot held before the transaction
    simp only [if_pos hrestores, if_pos hrestores.symm]
    split_ifs with hzero hcleared hclears
    · omega
    · omega
    · omega
    · omega
  · simp only [if_neg hrestores, if_neg (Ne.symm hrestores)]
    split_ifs with hzero hcleared hclears
    · omega
    · omega
    · omega
    · omega
    · omega

/-- **One write** is charged for an access and for the difference that it makes. -/
theorem store_net (initial current value : Int) :
    (store initial current value false).cost - (store initial current value false).refund =
      100 + netCharge initial value - netCharge initial current := by
  -- a word that is written again costs an access, and changes nothing
  by_cases hsame : current = value
  · subst hsame
    simp only [store, if_true, warmAccess, Bool.false_eq_true, if_false]
    omega
  · by_cases hclean : initial = current
    · subst hclean
      have hnone : netCharge initial initial = 0 := if_pos rfl
      rw [store_net_of_clean hsame, hnone, Int.sub_zero]
    · exact store_net_of_dirty hclean hsame

/-- **A sequence of writes**, from any word on. -/
theorem storeCharges_net (initial current : Int) (values : List Int) :
    ((storeCharges initial current values).map StoreCharge.cost).sum -
        ((storeCharges initial current values).map StoreCharge.refund).sum =
      100 * values.length + netCharge initial (values.getLastD current) -
        netCharge initial current := by
  -- by induction on the writes: each of them starts from the word that the one before it has left
  induction values generalizing current with
  | nil =>
    simp only [storeCharges, List.map_nil, List.sum_nil, List.length_nil, List.getLastD_nil]
    omega
  | cons value rest ih =>
    have hfirst := store_net initial current value
    have hrest := ih value
    simp only [storeCharges, List.map_cons, List.sum_cons, List.length_cons, List.getLastD_cons]
    push_cast
    omega

/-- **Net metering does not depend on the path.** However many words are written to a warm slot one
after another, starting from what it held before the transaction, their costs less their refunds
come to 100 for each write, and to what the difference between the first and the last word costs:
nothing if there is none, 19900 for setting a slot that was zero, 2000 less than nothing for
clearing one that was not, and 2800 for any other change. -/
theorem net_metering_is_path_independent (initial : Int) (values : List Int) :
    ((storeCharges initial initial values).map StoreCharge.cost).sum -
        ((storeCharges initial initial values).map StoreCharge.refund).sum =
      100 * values.length + netCharge initial (values.getLastD initial) := by
  have hnone : netCharge initial initial = 0 := if_pos rfl
  rw [storeCharges_net, hnone, Int.sub_zero]

-- A slot is cleared, set again, changed and restored.
example : (storeCharges 5 5 [0, 7, 9, 5]).map (fun charge => (charge.cost, charge.refund)) =
    [(2900, 4800), (100, -4800), (100, 0), (100, 2800)] := by decide

end Gas

end EvmCore
