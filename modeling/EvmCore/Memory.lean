import EvmCore.Allocation

/-!
# Memory

A frame's memory is a string of zero bytes that grows in words of 32 bytes. It is grown, and paid
for, before an instruction reads or writes it.
-/

namespace EvmCore

/-- The memory of a frame. -/
abbrev Memory := ByteArray

namespace Memory

/-- Memory of at least `size` bytes, filled up with zeros. -/
def grow (m : Memory) (size : Nat) : Memory :=
  if m.size < size then m ++ Bytes.zeros (size - m.size) else m

/-- Memory of at least a size that comes from outside. -/
@[inline] def resize (m : Memory) (size : Int) : Except Fault Memory := do
  let _ ← Bytes.checkedSize (max 0 (size - m.size))
  return m.grow size.toNat

/-- `size` bytes from `offset` on, fewer past the end. -/
def read (m : Memory) (offset size : Int) : ByteArray :=
  if size = 0 then .empty else Bytes.slice m offset (offset + size)

/-- The 32 bytes from `offset` on, fewer past the end. -/
def readWord (m : Memory) (offset : Int) : ByteArray := Bytes.slice m offset (offset + 32)

/-- Refuses to write `size` bytes from `offset` on unless they lie within the memory. -/
def checkWrite (m : Memory) (offset : Int) (size : Nat) : Except Fault Unit :=
  if size = 0 ∨ offset + size ≤ m.size then .ok () else .error .invalidMemoryAccess

/-- The memory with the bytes from `offset` on replaced. -/
def overwrite (m : Memory) (offset : Int) (data : ByteArray) : Memory :=
  if data.size = 0 then m else Bytes.splice m offset (offset + data.size) data

/-- Overwrites the bytes from `offset` on, which must lie within the memory. -/
@[inline] def write (m : Memory) (offset : Int) (data : ByteArray) : Except Fault Memory := do
  m.checkWrite offset data.size
  return m.overwrite offset data

/-- Overwrites the 32 bytes from `offset` on, which must lie within the memory. -/
@[inline] def writeWord (m : Memory) (offset : Int) (data : ByteArray) : Except Fault Memory := do
  m.checkWrite offset 32
  return Bytes.splice m offset (offset + 32) data

/-- The position of the byte that an offset names, which must lie within the memory; a negative
offset counts back from the end. -/
def byteIndex (m : Memory) (offset : Int) : Except Fault Nat :=
  let i := if offset < 0 then offset + m.size else offset
  if 0 ≤ i ∧ i < m.size then .ok i.toNat else .error .outOfRange

/-- The memory with one byte replaced. -/
def setByte (m : Memory) (i : Nat) (v : UInt8) : Memory :=
  if h : i < m.size then m.set i v h else m

end Memory

end EvmCore
