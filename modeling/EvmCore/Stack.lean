import EvmCore.Fault

/-!
# The operand stack

A stack of words with its top first. Places are counted from the top, which is place zero.
-/

namespace EvmCore

/-- The operands of a frame, top first. -/
abbrev Stack := List Word

namespace Stack

/-- The most items a stack may hold. -/
def limit : Nat := 1024

/-- The fewest items that there may be before `pops` items are taken. -/
def fewestBefore (pops : Int) : Int := pops

/-- The most items that there may be before `pops` items are taken and `pushes` are put. -/
def mostBefore (pops pushes : Int) : Int := limit + pops - pushes

/-- The item on top, and the stack below it. -/
def pop : Stack → Except Fault (Word × Stack)
  | [] => .error .outOfRange
  | v :: rest => .ok (v, rest)

/-- The item on top. -/
def peek : Stack → Except Fault Word
  | [] => .error .outOfRange
  | v :: _ => .ok v

/-- Replaces the item on top. -/
def poke : Stack → Word → Except Fault Stack
  | [], _ => .error .outOfRange
  | _ :: rest, v => .ok (v :: rest)

/-- The item at a place, for instructions that look at several operands before they take any. -/
def back (s : Stack) (n : Nat) : Except Fault Word :=
  match s[n]? with
  | some v => .ok v
  | none => .error .badStackAccess

/-- The address in the item at a place. -/
def backAddress (s : Stack) (n : Nat) : Except Fault Address :=
  (s.back n).map Address.ofWord

/-- The place that a count from the top ends at. One that runs past the bottom goes on from the
top. -/
def place (s : Stack) (n : Nat) : Nat :=
  match s[n]? with
  | some _ => n
  | none => n - s.length

/-- Pushes a copy of the item at a place. -/
def dup (s : Stack) (n : Nat) : Except Fault Stack :=
  match s[s.place n]? with
  | some v => .ok (v :: s)
  | none => .error .outOfRange

/-- Exchanges the top with the item at a place. -/
def swap (s : Stack) (n : Nat) : Except Fault Stack :=
  match s[0]?, s[s.place n]? with
  | some top, some v => .ok ((s.set 0 v).set (s.place n) top)
  | _, _ => .error .outOfRange

/-- Takes away the top `n` items. A count of more than there are starts again from the top once. -/
def discard (s : Stack) (n : Nat) : Stack :=
  s.drop (if n ≤ s.length then n else n - s.length)

end Stack

end EvmCore
