import EvmCore.Account
import EvmCore.Event
import EvmCore.Journal

/-!
# The state of a transaction

While a transaction runs, accounts are read from the source when they are first asked for and kept
in a cache, and all changes are made to the cache. Beside the accounts there is the substate, what
the transaction accrues until it is settled. Every change to either is recorded in one journal, so
that the changes of a frame can be undone; only the sets of warm accounts and slots never shrink.
-/

namespace EvmCore

/-- What is known of an address. -/
structure CacheEntry where
  /-- The account as it is now, if there is one. -/
  current : Option Account
  /-- The storage as it was when the account was read from the source. -/
  initial : Storage

/-- The accounts as the transaction sees them. -/
structure World where
  source : Source
  /-- Every address that was read or written so far. -/
  cache : Std.ExtTreeMap Address CacheEntry := ∅
  /-- The contracts created by this transaction; their initial storage counts as empty. -/
  created : AddressSet := ∅
  /-- The addresses whose account has to be written back. -/
  dirty : AddressSet := ∅

/-- A record that a contract leaves for the world outside. -/
structure Log where
  address : Address
  topics : List ByteArray
  data : ByteArray

/-- What a transaction accrues beside its changes to accounts. -/
structure Substate where
  /-- The contracts to delete when the transaction is settled. -/
  selfDestructs : AddressSet := ∅
  /-- The logs, oldest first. -/
  logs : Array Log := #[]
  /-- The accounts to delete at settlement if they are empty then. -/
  touched : AddressSet := ∅
  /-- Gas to give back, up to a share of what was used. -/
  refund : Int := 0
  warmAccounts : AddressSet := ∅
  warmSlots : Std.ExtTreeSet Slot := ∅

/-- How to undo one change. -/
inductive Undo where
  /-- Puts an account back, and takes it off the dirty ones unless it was among them before. -/
  | account (address : Address) (previous : Option Account) (wasDirty : Bool)
  | created (address : Address)
  | selfDestruct (address : Address)
  | log
  | touched (address : Address)
  /-- Adds to the refund counter. -/
  | refund (amount : Int)

/-- The state of a transaction, with what it has reported. -/
structure State where
  world : World
  substate : Substate := {}
  journal : Journal Undo := {}
  /-- The events reported so far, oldest first. -/
  events : Array Event := #[]
  /-- The steps taken so far, oldest first, if they are to be recorded. -/
  trace : Option (Array TraceStep) := none

/-- A computation on the state of a transaction. A fault leaves the state as it is at that point. -/
abbrev Action := EStateM Fault State

instance : MonadLift (Except Fault) Action where
  monadLift
    | .ok a => pure a
    | .error fault => throw fault

namespace World

/-- The initial storage of an address, as far as it is known. -/
def initialStorage (w : World) (a : Address) : Storage :=
  match w.cache[a]? with
  | some entry => entry.initial
  | none => ∅

/-- The cached account at an address. -/
def cached (w : World) (a : Address) : Option Account :=
  match w.cache[a]? with
  | some entry => entry.current
  | none => none

/-- Replaces the account at an address in the cache. -/
def setCurrent (w : World) (a : Address) (account : Option Account) : World :=
  { w with cache := w.cache.insert a ⟨account, w.initialStorage a⟩ }

end World

namespace State

/-- The state before anything was read from a source. -/
def ofSource (source : Source) : State := { world := { source } }

/-- Undoes one change. -/
def undo (s : State) : Undo → State
  | .account a previous wasDirty =>
    let world := s.world.setCurrent a previous
    { s with
      world := { world with dirty := if wasDirty then world.dirty else world.dirty.erase a } }
  | .created a => { s with world := { s.world with created := s.world.created.erase a } }
  | .selfDestruct a =>
    { s with substate := { s.substate with selfDestructs := s.substate.selfDestructs.erase a } }
  | .log => { s with substate := { s.substate with logs := s.substate.logs.pop } }
  | .touched a => { s with substate := { s.substate with touched := s.substate.touched.erase a } }
  | .refund amount =>
    { s with substate := { s.substate with refund := s.substate.refund + amount } }

/-- Records how to undo a change. -/
def record (s : State) (u : Undo) : State := { s with journal := s.journal.record u }

/-- Opens a layer of the journal. -/
def checkpoint : Action Unit :=
  modify fun s => { s with journal := s.journal.checkpoint }

/-- Keeps the changes made since the last checkpoint, as far as the layer around it does. -/
def commit : Action Unit := do
  let s ← get
  match s.journal.commit? with
  | none => throw .commitWithoutCheckpoint
  | some journal => set { s with journal }

/-- Undoes the changes made since the last checkpoint, newest first. -/
def revert : Action Unit := do
  let s ← get
  match s.journal.revert? with
  | none => throw .revertWithoutCheckpoint
  | some (entries, journal) => set (entries.foldl undo { s with journal })

/-- Reports an event. -/
def emit (e : Event) : Action Unit :=
  modify fun s => { s with events := s.events.push e }

end State

end EvmCore
