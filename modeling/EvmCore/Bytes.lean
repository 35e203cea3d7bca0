import EvmCore.Word

/-!
# Byte strings

Slices, padding and big-endian numbers. An index into a byte string may be negative and then counts
back from the end; slices are clamped to the string, so that they are defined for all indices.
-/

namespace EvmCore

namespace Bytes

/-- `n` zero bytes. -/
def zeros (n : Nat) : ByteArray := ⟨Array.replicate n 0⟩

/-- The position in a string of `size` bytes that an index names: a negative one counts back from
the end, and the result is kept within `[0, size]`. -/
def position (size : Nat) (i : Int) : Nat :=
  if i < 0 then (i + size).toNat else min i.toNat size

/-- The bytes from `start` up to, not including, `stop`. -/
def slice (b : ByteArray) (start stop : Int) : ByteArray :=
  b.extract (position b.size start) (position b.size stop)

/-- `b` with the bytes from `start` up to `stop` replaced by `data`. -/
def splice (b : ByteArray) (start stop : Int) (data : ByteArray) : ByteArray :=
  let first := position b.size start
  let last := position b.size stop
  if first + data.size = last then data.copySlice 0 b first data.size
  else b.extract 0 first ++ data ++ b.extract (max first last) b.size

/-- The `size` bytes of `b` from `start` on, with zeros past its end. -/
def padSlice (b : ByteArray) (start : Int) (size : Nat) : ByteArray :=
  let chunk := slice b start (start + size)
  chunk ++ zeros (size - chunk.size)

/-- The number that a byte string writes in base 256, most significant byte first. -/
def toNat (b : ByteArray) : Nat :=
  b.data.foldl (fun n x => n * 256 + x.toNat) 0

/-- The word that a byte string writes, most significant byte first. -/
def toWord (b : ByteArray) : Word := toNat b

/-- The lowest `size` bytes of a number, most significant byte first. -/
def ofNat : (size : Nat) → Nat → ByteArray
  | 0, _ => .empty
  | size + 1, n => (ofNat size (n / 256)).push (UInt8.ofNat (n % 256))

/-- The 32 bytes of a word; nothing for an integer outside the range of words. -/
def ofWord? (v : Word) : Option ByteArray :=
  if Word.InRange v then some (ofNat 32 v.toNat) else none

end Bytes

end EvmCore
