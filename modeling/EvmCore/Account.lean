import EvmCore.Fault
import Std.Data.ExtTreeMap
import Std.Data.ExtTreeSet

/-!
# Accounts

An account has a nonce, a balance, code and storage. Storage maps words to words; a slot that was
never written holds zero, and zeros are not kept. The accounts of the chain are held by a source,
which may fail to read, write or delete some of them.
-/

namespace EvmCore

/-- A set of addresses. -/
abbrev AddressSet := Std.ExtTreeSet Address

/-- The non-zero slots of an account. -/
abbrev Storage := Std.ExtTreeMap Word Word

namespace Storage

/-- The word in a slot. -/
def read (s : Storage) (key : Word) : Word := s[key]?.getD 0

/-- Storage with a word in a slot; zeros are not kept. -/
def write (s : Storage) (key value : Word) : Storage :=
  if value = 0 then s.erase key else s.insert key value

end Storage

/-- An account of the chain. -/
structure Account where
  nonce : Int := 0
  balance : Int := 0
  code : ByteArray := .empty
  storage : Storage := ∅

namespace Account

/-- An account that holds nothing at all. -/
def isEmpty (a : Account) : Bool :=
  a.nonce = 0 && a.balance = 0 && a.code.size = 0 && a.storage.isEmpty

end Account

/-- A change that a source has accepted. -/
inductive Change where
  | write (address : Address) (account : Account)
  | delete (address : Address)

/-- The accounts of the chain, and what the source that holds them refuses to do. -/
structure Source where
  accounts : Std.ExtTreeMap Address Account := ∅
  unreadable : AddressSet := ∅
  unwritable : AddressSet := ∅
  undeletable : AddressSet := ∅
  /-- The changes accepted so far, oldest first. -/
  changes : Array Change := #[]

namespace Source

/-- The account at an address, if there is one. -/
def read (s : Source) (a : Address) : Except Fault (Option Account) :=
  if a ∈ s.unreadable then .error (.unreadable a) else .ok s.accounts[a]?

/-- Puts an account at an address. -/
def write (s : Source) (a : Address) (account : Account) : Except Fault Source :=
  if a ∈ s.unwritable then .error (.unwritable a)
  else .ok
    { s with
      accounts := s.accounts.insert a account
      changes := s.changes.push (.write a account) }

/-- Removes the account at an address. -/
def delete (s : Source) (a : Address) : Except Fault Source :=
  if a ∈ s.undeletable then .error (.unwritable a)
  else .ok
    { s with
      accounts := s.accounts.erase a
      changes := s.changes.push (.delete a) }

/-- Puts or removes the account at an address. -/
def update (s : Source) (a : Address) : Option Account → Except Fault Source
  | some account => s.write a account
  | none => s.delete a

end Source

end EvmCore
