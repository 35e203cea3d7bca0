import EvmCore.Bytes

/-!
# Hexadecimal text

Bytes are written as two lower-case digits each after `0x`. Reading drops one leading `0x`, accepts
digits of both cases, and skips blanks before, between and after the pairs of digits, but not
within a pair.
-/

namespace EvmCore

namespace Hex

/-- The digit of a number below 16. -/
def digit (n : Nat) : Char := (Nat.digitChar n)

/-- The two digits of each byte in turn. -/
def digits (b : ByteArray) : String :=
  b.data.foldl (fun s x => (s.push (digit (x.toNat / 16))).push (digit (x.toNat % 16))) ""

/-- The written form of a byte string. -/
def encode (b : ByteArray) : String := "0x" ++ digits b

/-- The value of a hexadecimal digit. -/
def value? (c : Char) : Option Nat :=
  if '0' ≤ c ∧ c ≤ '9' then some (c.toNat - 48)
  else if 'a' ≤ c ∧ c ≤ 'f' then some (c.toNat - 87)
  else if 'A' ≤ c ∧ c ≤ 'F' then some (c.toNat - 55)
  else none

/-- The blanks that may stand between pairs of digits: space, tab, line feed, vertical tab, form
feed and carriage return. -/
def isBlank (c : Char) : Bool := c = ' ' || (9 ≤ c.toNat && c.toNat ≤ 13)

/-- The bytes that a text of digit pairs and blanks writes, after those already read. -/
def readPairs (read : ByteArray) : List Char → Option ByteArray
  | [] => some read
  | c :: rest =>
    if isBlank c then readPairs read rest
    else
      match rest with
      | [] => none
      | d :: rest =>
        match value? c, value? d with
        | some high, some low => readPairs (read.push (UInt8.ofNat (16 * high + low))) rest
        | _, _ => none

/-- A text without its leading `0x`, if it has one. -/
def dropMark : List Char → List Char
  | '0' :: 'x' :: rest => rest
  | text => text

/-- The byte string that a text writes. -/
def decode? (text : String) : Option ByteArray := readPairs .empty (dropMark text.toList)

end Hex

end EvmCore
