import EvmCore.Gas.Schedule

/-!
# The cost of memory

Memory is paid for by the word, with a part that grows quadratically, so that only the growth of
memory costs anything. Sizes are computed from untrusted offsets and lengths: one of `2 ^ 64` or
more is no size at all.
-/

namespace EvmCore

namespace Gas

/-- Sizes are below this bound. -/
def sizeBound : Int := 0x10000000000000000

/-- The number of words that hold `size` bytes. -/
def wordCount (size : Int) : Int := (size + 31) / 32

/-- The memory needed for `length` bytes from `offset` on. A length of zero needs none, whatever the
offset. -/
def memorySize? (offset length : Int) : Option Int :=
  if sizeBound ≤ length then none
  else if length = 0 then some 0
  else if sizeBound ≤ offset then none
  else if sizeBound ≤ offset + length then none
  else some (offset + length)

/-- What `words` words of memory cost altogether. -/
def memoryCost (words : Int) : Int := words * memoryWord + words * words / quadraticDivisor

/-- What it costs to have `size` bytes of memory once `activeWords` words are paid for; nothing if
no amount of gas is enough. -/
def expansion? (activeWords : Int) (size : Int) : Option Int :=
  if size = 0 then some 0
  else if maxMemorySize < size then none
  else
    let words := wordCount size
    if words ≤ activeWords then some 0 else some (memoryCost words - memoryCost activeWords)

end Gas

end EvmCore
