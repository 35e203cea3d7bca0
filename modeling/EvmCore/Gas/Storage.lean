import EvmCore.Gas.Schedule

/-!
# The cost of writing storage

Writing a slot is metered by net change: the cost and the change to the refund counter depend on
what the slot held before the transaction, what it holds now, and what it is to hold.
-/

namespace EvmCore

namespace Gas

/-- The cost of writing a slot and the change to the refund counter. -/
structure StoreCharge where
  cost : Int
  refund : Int
  deriving DecidableEq

/-- The change to the refund counter for a slot that was already changed by the transaction. -/
def dirtyRefund (initial current value : Int) : Int :=
  let clearing :=
    if initial = 0 then 0
    else if current = 0 then -storeClearRefund
    else if value = 0 then storeClearRefund
    else 0
  let restoring :=
    if initial = value then
      if initial = 0 then storeSet - warmAccess else storeReset - warmAccess
    else 0
  clearing + restoring

/-- The charge for writing `value` to a slot that holds `current` and held `initial`. -/
def store (initial current value : Int) (cold : Bool) : StoreCharge :=
  let access := if cold then coldSlot else 0
  if current = value then ⟨access + warmAccess, 0⟩
  else if initial = current then
    if initial = 0 then ⟨access + storeSet, 0⟩
    else ⟨access + storeReset, if value = 0 then storeClearRefund else 0⟩
  else ⟨access + warmAccess, dirtyRefund initial current value⟩

end Gas

end EvmCore
