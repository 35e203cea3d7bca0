/-!
# Numbers in text

Whole numbers in base ten, with an optional sign before and blanks around them. Single low lines may
stand between the digits. The digits of every script count as digits, and the spaces of every script
as blanks; of the control characters only those that move to another column or line are blanks.
-/

namespace EvmCore

namespace Decimal

/-- The code points of the zeros of all scripts. Each is followed by the digits one to nine. -/
def zeros : List Nat :=
  [0x30, 0x660, 0x6f0, 0x7c0, 0x966, 0x9e6, 0xa66, 0xae6, 0xb66, 0xbe6, 0xc66, 0xce6, 0xd66, 0xde6,
    0xe50, 0xed0, 0xf20, 0x1040, 0x1090, 0x17e0, 0x1810, 0x1946, 0x19d0, 0x1a80, 0x1a90, 0x1b50,
    0x1bb0, 0x1c40, 0x1c50, 0xa620, 0xa8d0, 0xa900, 0xa9d0, 0xa9f0, 0xaa50, 0xabf0, 0xff10, 0x104a0,
    0x10d30, 0x11066, 0x110f0, 0x11136, 0x111d0, 0x112f0, 0x11450, 0x114d0, 0x11650, 0x116c0,
    0x11730, 0x118e0, 0x11950, 0x11c50, 0x11d50, 0x11da0, 0x16a60, 0x16ac0, 0x16b50, 0x1d7ce,
    0x1d7d8, 0x1d7e2, 0x1d7ec, 0x1d7f6, 0x1e140, 0x1e2f0, 0x1e950, 0x1fbf0]

/-- The value of a digit. -/
def digit? (c : Char) : Option Nat :=
  (zeros.find? fun first => first ≤ c.toNat && c.toNat < first + 10).map fun first =>
    c.toNat - first

/-- The code points of the blanks outside of the range from tab to carriage return. -/
def blanks : List Nat :=
  [0x20, 0x85, 0xa0, 0x1680, 0x2000, 0x2001, 0x2002, 0x2003, 0x2004, 0x2005, 0x2006, 0x2007, 0x2008,
    0x2009, 0x200a, 0x2028, 0x2029, 0x202f, 0x205f, 0x3000]

/-- Whether a character is a blank. -/
def isBlank (c : Char) : Bool := (9 ≤ c.toNat && c.toNat ≤ 13) || blanks.contains c.toNat

/-- The number that digits write after those already read. -/
def readDigits (read : Nat) : List Char → Option Nat
  | [] => some read
  | '_' :: c :: rest =>
    match digit? c with
    | some d => readDigits (10 * read + d) rest
    | none => none
  | c :: rest =>
    match digit? c with
    | some d => readDigits (10 * read + d) rest
    | none => none

/-- A number without a sign, which starts with a digit. -/
def readNat? : List Char → Option Nat
  | [] => none
  | '_' :: _ => none
  | digits => readDigits 0 digits

/-- A text without the blanks around it. -/
def trim (text : List Char) : List Char :=
  ((text.dropWhile isBlank).reverse.dropWhile isBlank).reverse

/-- The number that a text writes. -/
def read? (text : String) : Option Int :=
  match trim text.toList with
  | '+' :: digits => (readNat? digits).map Int.ofNat
  | '-' :: digits => (readNat? digits).map fun n => -Int.ofNat n
  | digits => (readNat? digits).map Int.ofNat

end Decimal

end EvmCore
