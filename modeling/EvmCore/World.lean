import EvmCore.State

/-!
# The accounts during a transaction

Reading and changing accounts. An absent account reads as one that holds nothing, and comes into
being with the first change to it. Nothing reaches the source before `flush`.
-/

namespace EvmCore

namespace World

/-- The account at an address, read from the source if it was not asked for before. -/
def load (a : Address) : Action (Option Account) := do
  let s ← get
  match s.world.cache[a]? with
  | some entry => return entry.current
  | none =>
    match s.world.source.read a with
    | .error fault => throw fault
    | .ok account =>
      let initial := (account.map Account.storage).getD ∅
      set { s with world := { s.world with cache := s.world.cache.insert a ⟨account, initial⟩ } }
      return account

/-- Replaces the account at an address, which must have been loaded, and records it. -/
def put (a : Address) (account : Option Account) : Action Unit :=
  modify fun s =>
    let s := s.record (.account a (s.world.cached a) (s.world.dirty.contains a))
    let world := s.world.setCurrent a account
    { s with world := { world with dirty := world.dirty.insert a } }

/-! ### Reading -/

/-- The account at an address, one that holds nothing if there is none. -/
def account (a : Address) : Action Account := return (← load a).getD {}

/-- Whether there is an account at an address, be it empty or not. -/
def isPresent (a : Address) : Action Bool := return (← load a).isSome

/-- Whether the account at an address holds nothing. -/
def isEmpty (a : Address) : Action Bool := return (← account a).isEmpty

/-- The balance of an address. -/
def balance (a : Address) : Action Int := return (← account a).balance

/-- The nonce of an address. -/
def nonce (a : Address) : Action Int := return (← account a).nonce

/-- The code of an address. -/
def code (a : Address) : Action ByteArray := return (← account a).code

/-- The hash of the code of an address; 32 zeros if there is no account. -/
def codeHash (a : Address) : Action ByteArray := do
  match ← load a with
  | none => return Bytes.zeros 32
  | some account => return Keccak.hash account.code

/-- The word in a storage slot. -/
def storage (a : Address) (key : Word) : Action Word := return (← account a).storage.read key

/-- The word that a storage slot held before the transaction. -/
def initial (a : Address) (key : Word) : Action Word := do
  discard (load a)
  let s ← get
  return if s.world.created.contains a then 0 else (s.world.initialStorage a).read key

/-- Whether any storage slot of an address is set. -/
def hasStorage (a : Address) : Action Bool := return !(← account a).storage.isEmpty

/-! ### Changing -/

/-- Changes the account at an address, starting from one that holds nothing if there is none. -/
def update (a : Address) (f : Account → Account) : Action Unit := do
  put a (some (f (← account a)))

/-- Sets the balance of an address. -/
def setBalance (a : Address) (v : Int) : Action Unit := do
  if v < 0 then throw .negativeBalance
  update a ({ · with balance := v })

/-- Adds to the balance of an address. -/
def addBalance (a : Address) (v : Int) : Action Unit := do
  setBalance a ((← balance a) + v)

/-- Takes from the balance of an address. -/
def subBalance (a : Address) (v : Int) : Action Unit := do
  setBalance a ((← balance a) - v)

/-- Moves a value from one address to another. -/
def transfer (sender recipient : Address) (value : Int) : Action Unit := do
  subBalance sender value
  addBalance recipient value

/-- Sets the nonce of an address. -/
def setNonce (a : Address) (v : Int) : Action Unit := update a ({ · with nonce := v })

/-- Raises the nonce of an address by one. -/
def incrementNonce (a : Address) : Action Unit := do setNonce a ((← nonce a) + 1)

/-- Sets the code of an address. -/
def setCode (a : Address) (code : ByteArray) : Action Unit := update a ({ · with code })

/-- Sets a storage slot. -/
def setStorage (a : Address) (key value : Word) : Action Unit :=
  update a fun account => { account with storage := account.storage.write key value }

/-- Makes sure that there is an account at an address. -/
def touch (a : Address) : Action Unit := do
  if (← load a).isNone then put a (some {})

/-- Starts a fresh contract at an address. It keeps the balance that the address already has. -/
def create (a : Address) : Action Unit := do
  put a (some { balance := ← balance a })
  modify fun s =>
    if s.world.created.contains a then s
    else
      let s := s.record (.created a)
      { s with world := { s.world with created := s.world.created.insert a } }

/-- Removes the account at an address. -/
def delete (a : Address) : Action Unit := do
  discard (load a)
  put a none

/-! ### Writing back -/

/-- Writes the accounts at some addresses back to the source, in turn, until one fails. -/
def writeBack : List Address → Action Unit
  | [] => pure ()
  | a :: rest => do
    let s ← get
    match s.world.source.update a (s.world.cached a) with
    | .error fault => throw fault
    | .ok source =>
      set { s with world := { s.world with source } }
      writeBack rest

/-- Writes every changed account back to the source, in ascending order of addresses. -/
def flush : Action Unit := do
  let dirty := (← get).world.dirty
  writeBack dirty.toList
  State.emit (.flushed dirty.size)
  modify fun s => { s with world := { s.world with dirty := ∅ } }

end World

end EvmCore
