import EvmCore.Hex
import EvmCore.Keccak
import EvmCore.Rlp

/-!
# Addresses

An account is named by an address of 20 bytes. A word names the address in its lowest 160 bits. The
address of a new contract is cut from the hash of a preimage that fixes who creates it: by the
creator's nonce, or by a salt and the init code.
-/

namespace EvmCore

/-- The name of an account: 20 bytes, kept as a number of 160 bits. -/
abbrev Address := BitVec 160

namespace Address

/-- The address in the lowest 160 bits of a word. -/
def ofWord (v : Word) : Address := BitVec.ofInt 160 v

/-- An address as a word. -/
def toWord (a : Address) : Word := (a.toNat : Int)

/-- The 20 bytes of an address. -/
def toBytes (a : Address) : ByteArray := Bytes.ofNat 20 a.toNat

/-- The address that 20 bytes write; nothing for a byte string of another length. -/
def ofBytes? (b : ByteArray) : Option Address :=
  if b.size = 20 then some (BitVec.ofNat 160 (Bytes.toNat b)) else none

/-- The 40 hexadecimal digits of an address. -/
def hex (a : Address) : String := Hex.digits a.toBytes

/-- The address in the last 20 bytes of a hash. -/
def ofHash (h : ByteArray) : Address := BitVec.ofNat 160 (Bytes.toNat (h.extract 12 32))

/-- What is hashed for a contract that the bytes of `sender` create at a nonce. -/
def createPreimage (sender : ByteArray) (nonce : Nat) : ByteArray :=
  Rlp.encode (.list [.bytes sender, .ofNat nonce])

/-- The address of a contract created by `sender` at a nonce. -/
def create (sender : Address) (nonce : Nat) : Address :=
  ofHash (Keccak.hash (createPreimage sender.toBytes nonce))

/-- What is hashed for a contract that the bytes of `sender` create with a salt of 32 bytes, from
init code with the hash `codeHash`. -/
def saltedPreimage (sender salt codeHash : ByteArray) : ByteArray :=
  ByteArray.empty.push 0xff ++ sender ++ salt ++ codeHash

/-- The address of a contract created by `sender` from init code with a salt of 32 bytes. -/
def createSalted (sender : Address) (salt initCode : ByteArray) : Address :=
  ofHash (Keccak.hash (saltedPreimage sender.toBytes salt (Keccak.hash initCode)))

instance : Std.TransOrd Address := inferInstanceAs (Std.TransOrd (BitVec 160))

instance : Std.LawfulEqOrd Address := inferInstanceAs (Std.LawfulEqOrd (BitVec 160))

end Address

/-- A storage slot: an account and a key into its storage. -/
structure Slot where
  address : Address
  key : Word
  deriving DecidableEq

namespace Slot

/-- Slots are ordered by address, then by key. -/
instance : Ord Slot := ⟨compareLex (compareOn Slot.address) (compareOn Slot.key)⟩

instance : Std.TransOrd Slot :=
  inferInstanceAs (Std.TransCmp (compareLex (compareOn Slot.address) (compareOn Slot.key)))

instance : Std.LawfulEqOrd Slot where
  eq_of_compare {a b} h := by
    have h := compareLex_eq_eq.1 h
    have ha : a.address = b.address := Std.LawfulEqOrd.eq_of_compare h.1
    have hk : a.key = b.key := Std.LawfulEqOrd.eq_of_compare h.2
    cases a; cases b; cases ha; cases hk; rfl

end Slot

end EvmCore
