import EvmCore.State

/-!
# What a transaction accrues

Contracts to delete, logs, touched accounts and the refund counter are journaled with the accounts.
The warm accounts and slots are not: what was accessed once stays warm to the end.
-/

namespace EvmCore

namespace Substate

/-- Marks a contract to be deleted at settlement. -/
def addSelfDestruct (a : Address) : Action Unit :=
  modify fun s =>
    if s.substate.selfDestructs.contains a then s
    else
      let s := s.record (.selfDestruct a)
      { s with substate := { s.substate with selfDestructs := s.substate.selfDestructs.insert a } }

/-- Appends a log. -/
def addLog (log : Log) : Action Unit :=
  modify fun s =>
    let s := s.record .log
    { s with substate := { s.substate with logs := s.substate.logs.push log } }

/-- Marks an account to be deleted at settlement if it is empty then. -/
def touch (a : Address) : Action Unit :=
  modify fun s =>
    if s.substate.touched.contains a then s
    else
      let s := s.record (.touched a)
      { s with substate := { s.substate with touched := s.substate.touched.insert a } }

/-- Raises the refund counter. -/
def addRefund (gas : Int) : Action Unit :=
  modify fun s =>
    let s := s.record (.refund (-gas))
    { s with substate := { s.substate with refund := s.substate.refund + gas } }

/-- Lowers the refund counter, which must not fall below zero. -/
def subRefund (gas : Int) : Action Unit := do
  let s ← get
  if s.substate.refund < gas then throw (.negativeRefund gas s.substate.refund)
  let s := s.record (.refund gas)
  set { s with substate := { s.substate with refund := s.substate.refund - gas } }

/-- Warms an account; the result is whether it was warm already. -/
def warmAccount (a : Address) : Action Bool :=
  modifyGet fun s =>
    (s.substate.warmAccounts.contains a,
      { s with substate := { s.substate with warmAccounts := s.substate.warmAccounts.insert a } })

/-- Warms a storage slot; the result is whether it was warm already. -/
def warmSlot (slot : Slot) : Action Bool :=
  modifyGet fun s =>
    (s.substate.warmSlots.contains slot,
      { s with substate := { s.substate with warmSlots := s.substate.warmSlots.insert slot } })

end Substate

end EvmCore
