import EvmCore.Fault

/-!
# Making byte strings

The size of a byte string to be made may come from outside, where nothing keeps it from being
negative or beyond what can be stored. Such a size is refused before anything is made.
-/

namespace EvmCore

namespace Bytes

/-- The longest byte string that can be addressed. -/
def addressableSize : Int := 0x7fffffffffffffde

/-- The longest byte string that there is room for. -/
def storableSize : Int := 0x10000000000

/-- The size of a byte string to be made. -/
def checkedSize (size : Int) : Except Fault Nat :=
  if size < 0 then .error .negativeCount
  else if addressableSize < size then .error .sizeOverflow
  else if storableSize < size then .error .outOfMemory
  else .ok size.toNat

/-- The `size` bytes of `b` from `start` on, with zeros past its end, for a size from outside. -/
def padSlice? (b : ByteArray) (start size : Int) : Except Fault ByteArray := do
  let chunk := slice b start (start + size)
  return chunk ++ zeros (← checkedSize (size - chunk.size))

end Bytes

end EvmCore
