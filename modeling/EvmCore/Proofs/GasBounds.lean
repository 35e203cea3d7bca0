import EvmCore.Proofs.Bystander
import EvmCore.Proofs.RefundBound
import Mathlib

/-!
# How much gas a transaction uses, and what it pays

The gas that a transaction spends lies between what it costs before anything runs and its limit
(`Transaction.Passes.gasSpent_mem`): its frames never give back more than they were handed. Of the
gas spent at most a fifth is refunded, and never less than nothing, as the refund counter is not
negative. So whatever a transaction does, it pays for at least four fifths of its intrinsic gas, and
for no more than its limit.

The price of a unit of gas is at least the base fee, which is burned, and at most the fee that the
sender agreed to. What is left of it for the coinbase is therefore not negative, and what the sender
is charged never exceeds what was reserved at validation.
-/

namespace EvmCore

namespace Transaction

section Bounds

variable {tx : Transaction} {block : Block} {precompiles : Std.ExtTreeMap Address Precompile}
  {source : Source} {s : State} {o : Outcome} {v : View} {counter spent : Int}

/-- The gas that is paid for and the gas that is refunded are the gas spent. -/
theorem gasUsed_add_refundOf (tx : Transaction) (o : Outcome) (counter : Int) :
    tx.gasUsed o counter + refundOf counter (tx.gasSpent o) = tx.gasSpent o :=
  Int.sub_add_cancel ..

/-- A refund is not negative if the counter is not. -/
theorem refundOf_nonneg (hcounter : 0 ≤ counter) (hspent : 0 ≤ spent) :
    0 ≤ refundOf counter spent :=
  le_min hcounter (Int.ediv_nonneg hspent (by decide))

/-- At most a fifth of the gas spent is refunded, whatever the counter holds. -/
theorem five_mul_refundOf_le (counter spent : Int) : 5 * refundOf counter spent ≤ spent := by
  have hshare : refundOf counter spent ≤ spent / 5 := min_le_right ..
  have hfloor : 5 * (spent / 5) ≤ spent := Int.mul_ediv_self_le (by decide)
  omega

/-- **A transaction spends** at least its intrinsic gas and at most its limit. -/
theorem Passes.gasSpent_mem (hended : Passes tx block precompiles (.ofSource source) (.ended o) s)
    (h : tx.NonNegative block precompiles source) :
    tx.gasSpent o ∈ Set.Icc tx.intrinsicGas tx.gasLimit := by
  -- what was not given back is between the intrinsic gas and the limit
  obtain ⟨hnonneg, hle⟩ := hended.ended_within h
  rw [Set.mem_Icc, gasSpent]
  omega

/-- The sender is never charged more per unit of gas than it agreed to. -/
theorem effectiveGasPrice_le (tx : Transaction) (baseFee : Int) :
    tx.effectiveGasPrice baseFee ≤ tx.feeCaps.1 :=
  min_le_left ..

end Bounds

/-- **The bounds on the gas and the fees of a transaction.** If nothing that it is applied with is
negative, the refund of a transaction is not negative and at most a fifth of the gas spent, which is
at least its intrinsic gas and at most its limit. It pays at least the base fee for a unit of gas
and at most what the sender agreed to: all in all no more than the limit at the highest fee, with
nothing negative left for the coinbase. -/
theorem gas_and_fees_are_bounded (tx : Transaction) (block : Block)
    (precompiles : Std.ExtTreeMap Address Precompile) (source : Source) (r : Receipt) (s' : State)
    (hnonneg : tx.NonNegative block precompiles source)
    (happly : tx.apply block precompiles (.ofSource source) = .ok r s') :
    0 ≤ r.refund ∧
    tx.intrinsicGas ≤ r.gasUsed + r.refund ∧ r.gasUsed + r.refund ≤ tx.gasLimit ∧
    5 * r.refund ≤ r.gasUsed + r.refund ∧ 4 * tx.intrinsicGas ≤ 5 * r.gasUsed ∧
    block.baseFee ≤ tx.effectiveGasPrice block.baseFee ∧
    tx.effectiveGasPrice block.baseFee ≤ tx.feeCaps.1 ∧
    r.gasUsed * tx.effectiveGasPrice block.baseFee ≤ tx.gasLimit * tx.feeCaps.1 ∧
    0 ≤ r.gasUsed * (tx.effectiveGasPrice block.baseFee - block.baseFee) := by
  have hadmissible := admissible_of_apply happly
  obtain ⟨o, s, hended, hsettle⟩ := exists_ended_of_apply happly
  obtain ⟨-, -, -, hgasUsed, hrefund⟩ := (settles_of_settle hsettle).receipt
  -- the refund is taken from what was spent, so the two add up to it again
  have hsum : r.gasUsed + r.refund = tx.gasSpent o := by
    rw [hgasUsed, hrefund]
    exact gasUsed_add_refundOf ..
  obtain ⟨hintrinsic, hlimit⟩ := hended.gasSpent_mem hnonneg
  have hpositive := tx.size_lt_intrinsicGas
  have hcounter : 0 ≤ s.substate.refund := (hended.covered trivial).nonneg
  have hrefund_nonneg : 0 ≤ r.refund := hrefund ▸ refundOf_nonneg hcounter (by omega)
  have hfifth : 5 * r.refund ≤ tx.gasSpent o := hrefund ▸ five_mul_refundOf_le ..
  have hprice := tx.effectiveGasPrice_le block.baseFee
  -- at least four fifths of the gas spent are paid for, as the refund is at most a fifth
  refine ⟨hrefund_nonneg, hsum ▸ hintrinsic, hsum ▸ hlimit, hsum ▸ hfifth, by omega,
    hnonneg.baseFee_le hadmissible, hprice, ?_, hgasUsed ▸ hnonneg.fee_nonneg hadmissible hended⟩
  calc r.gasUsed * tx.effectiveGasPrice block.baseFee
      ≤ r.gasUsed * tx.feeCaps.1 := mul_le_mul_of_nonneg_left hprice (by omega)
    _ ≤ tx.gasLimit * tx.feeCaps.1 := mul_le_mul_of_nonneg_right (by omega) hnonneg.feeCaps.1

/-- A contract that clears two slots. The counter holds more than a fifth of the gas spent, so a
fifth is refunded, and the price is set by the priority fee. -/
theorem clearing_two_slots_refunds_a_fifth :
    let source : Source :=
      { accounts := ((∅ : Std.ExtTreeMap Address Account).insert 1 { balance := 10000000 }).insert 2
          { code := ⟨#[0x60, 0, 0x60, 0, 0x55, 0x60, 0, 0x60, 1, 0x55]⟩
            storage := ((∅ : Storage).write 0 7).write 1 8 } }
    let block : Block := { coinbase := 3, baseFee := 7 }
    let tx : Transaction :=
      { sender := 1, nonce := 0, gasLimit := 60000, recipient := some 2, maxFee := some 20,
        priorityFee := some 2 }
    tx.NonNegative block ∅ source ∧ ∃ r s', tx.apply block ∅ (.ofSource source) = .ok r s' ∧
      r.gasUsed = 24810 ∧ r.refund = 6202 ∧ tx.intrinsicGas = 21000 ∧
      tx.effectiveGasPrice block.baseFee = 9 ∧
      0 ≤ r.refund ∧ 21000 ≤ r.gasUsed + r.refund ∧ r.gasUsed + r.refund ≤ 60000 ∧
      5 * r.refund ≤ r.gasUsed + r.refund ∧ 4 * 21000 ≤ 5 * r.gasUsed ∧
      r.gasUsed * tx.effectiveGasPrice block.baseFee ≤ 60000 * 20 ∧ 0 ≤ r.gasUsed * (9 - 7) := by
  intro source block tx
  have hnonneg : tx.NonNegative block ∅ source := by
    refine ⟨by decide, by decide, ?_, ?_, by decide, by decide, by decide, by decide, by decide,
      by decide, fun hnone => ?_, fun {a account} h => ?_⟩
    · rintro fee ⟨⟩
      decide
    · rintro fee ⟨⟩
      decide
    · rw [Std.ExtTreeMap.getElem?_empty] at hnone
      cases hnone
    · rw [Std.ExtTreeMap.getElem?_insert] at h
      split at h
      · cases h
        refine ⟨by decide, fun key => ?_⟩
        rw [Storage.read_write, Storage.read_write]
        split_ifs
        · decide
        · decide
        · exact le_rfl
      · rw [Std.ExtTreeMap.getElem?_insert] at h
        split at h
        · cases h
          exact ⟨by decide, fun _ => le_rfl⟩
        · rw [Std.ExtTreeMap.getElem?_empty] at h
          cases h
  have hends : endsWith (fun r _ => decide (r.gasUsed = 24810 ∧ r.refund = 6202))
      (tx.apply block ∅ (.ofSource source)) = true := by decide +kernel
  obtain ⟨r, s', happly, hends⟩ := endsWith_iff.mp hends
  obtain ⟨hgasUsed, hrefund⟩ := of_decide_eq_true hends
  obtain ⟨hrefund_nonneg, hintrinsic, hlimit, hfifth, hused, -, -, hfee, hcoinbase⟩ :=
    gas_and_fees_are_bounded tx block ∅ source r s' hnonneg happly
  have hgas : tx.intrinsicGas = 21000 := by decide +kernel
  have hprice : tx.effectiveGasPrice block.baseFee = 9 := by decide
  rw [hgas] at hintrinsic hused
  rw [hprice] at hcoinbase
  exact ⟨hnonneg, r, s', happly, hgasUsed, hrefund, hgas, hprice, hrefund_nonneg, hintrinsic,
    hlimit, hfifth, hused, hfee, hcoinbase⟩

end Transaction

end EvmCore
