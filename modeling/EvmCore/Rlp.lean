import EvmCore.Bytes

/-!
# Recursive length prefix encoding

The serial form of nested lists of byte strings. Each string and each list is preceded by its
length, a single byte below `0x80` stands for itself, and a number is written as the byte string of
its big-endian digits without leading zeros.
-/

namespace EvmCore

namespace Rlp

/-- A byte string or a list of items. -/
inductive Item where
  | bytes (b : ByteArray)
  | list (items : List Item)

/-- The big-endian digits of a number in base 256, without leading zeros. -/
def digits (n : Nat) : ByteArray := Bytes.ofNat (Word.byteLength n) n

/-- The item that stands for a number. -/
def Item.ofNat (n : Nat) : Item := .bytes (digits n)

/-- The header of a payload of `size` bytes: one byte up to 55, else a byte that tells the number of
length digits, and those. `base` is `0x80` for strings and `0xc0` for lists. -/
def header (base size : Nat) : ByteArray :=
  if size < 56 then .empty |>.push (UInt8.ofNat (base + size))
  else
    let length := digits size
    (ByteArray.empty.push (UInt8.ofNat (base + 55 + length.size))) ++ length

/-- The encoding of a byte string. -/
def encodeBytes (b : ByteArray) : ByteArray :=
  if b.size = 1 ∧ b.data[0]?.getD 0 < 0x80 then b else header 0x80 b.size ++ b

mutual

/-- The encoding of an item. -/
def encode : Item → ByteArray
  | .bytes b => encodeBytes b
  | .list items =>
    let payload := encodeAll items
    header 0xc0 payload.size ++ payload

/-- The encodings of items one after another. -/
def encodeAll : List Item → ByteArray
  | [] => .empty
  | item :: rest => encode item ++ encodeAll rest

end

end Rlp

end EvmCore
