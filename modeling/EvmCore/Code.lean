import EvmCore.Bytes
import EvmCore.Opcode
import Std.Data.TreeSet

/-!
# Byte code

Code is a string of instructions: an opcode, and for the pushing opcodes the bytes to push. Walking
it from the start yields the offset of every instruction. A jump may only go to a `JUMPDEST` at one
of these offsets; the same byte among the bytes to push is data. This walk looks at the opcode bytes
alone, while the listing of a code looks them up in the table of opcodes.
-/

namespace EvmCore

/-- The number of bytes after this opcode byte that belong to its instruction. -/
def immediateSize (b : UInt8) : Nat :=
  if 0x60 ≤ b.toNat ∧ b.toNat < 0x80 then b.toNat - 0x5f else 0

/-- The offsets of the instructions from `pc` on, after those already found. -/
def offsetsFrom (code : ByteArray) (pc : Nat) (found : Array Nat) : Array Nat :=
  if h : pc < code.size then
    offsetsFrom code (pc + 1 + immediateSize code[pc]) (found.push pc)
  else found
termination_by code.size - pc

/-- The offsets of all instructions, in ascending order. -/
def offsets (code : ByteArray) : List Nat := (offsetsFrom code 0 #[]).toList

/-- The byte at an offset; past the end of the code the machine reads a `STOP`. -/
def opAt (code : ByteArray) (pc : Nat) : UInt8 :=
  if h : pc < code.size then code[pc] else 0

/-- The byte that a program counter points at. A negative one counts back from the end of the code;
nothing if that leads before its start. -/
def fetch? (code : ByteArray) (pc : Int) : Option UInt8 :=
  let place := if pc < 0 then pc + code.size else pc
  if place < 0 then none else some (opAt code place.toNat)

/-- An instruction at its place in the code. -/
structure Instruction where
  offset : Nat
  opcode : UInt8
  /-- The bytes to push, fewer than asked for at the end of the code. -/
  immediate : ByteArray

namespace Instruction

/-- The instruction at an offset. -/
def ofOffset (code : ByteArray) (pc : Nat) : Instruction :=
  let b := opAt code pc
  ⟨pc, b, code.extract (pc + 1) (pc + 1 + Opcode.immediateSizeOfByte b.toNat)⟩

/-- The mnemonic of an instruction. -/
def name (i : Instruction) : String := Opcode.nameOfByte i.opcode.toNat

/-- The number of bytes to push that the table of opcodes gives an instruction; none if it has no
entry. -/
def pushSize (i : Instruction) : Nat := Opcode.immediateSizeOfByte i.opcode.toNat

/-- The bytes to push, for an instruction that pushes. -/
def immediate? (i : Instruction) : Option ByteArray :=
  if i.pushSize = 0 then none else some i.immediate

end Instruction

/-- The instructions from `pc` on, each as far behind the one before as the
table of opcodes says. -/
def disassembleFrom (code : ByteArray) (pc : Nat) : List Instruction :=
  if pc < code.size then
    .ofOffset code pc :: disassembleFrom code (pc + 1 + (Instruction.ofOffset code pc).pushSize)
  else []
termination_by code.size - pc

/-- The instructions of a code in order. -/
def disassemble (code : ByteArray) : List Instruction := disassembleFrom code 0

/-- The opcode byte of `JUMPDEST`. -/
def jumpDestByte : UInt8 := 0x5b

/-- The offsets that a jump may go to, in ascending order. -/
def jumpDests (code : ByteArray) : List Nat :=
  (offsets code).filter fun pc => opAt code pc = jumpDestByte

/-- Byte code with its jump destinations, which are found when they are first asked for. -/
structure Code where
  bytes : ByteArray
  dests : Thunk (Std.TreeSet Nat)
  dests_eq : dests.get = Std.TreeSet.ofList (jumpDests bytes)

namespace Code

/-- The code of a byte string. -/
def ofBytes (bytes : ByteArray) : Code where
  bytes := bytes
  dests := Thunk.mk fun _ => Std.TreeSet.ofList (jumpDests bytes)
  dests_eq := rfl

/-- Whether a jump may go to `dest`. -/
def validJumpDest (code : Code) (dest : Word) : Bool :=
  decide (0 ≤ dest) && code.dests.get.contains dest.toNat

/-- A jump may go exactly to the places that the walk over the code finds. -/
theorem validJumpDest_iff (code : Code) (dest : Word) :
    code.validJumpDest dest = true ↔ 0 ≤ dest ∧ dest.toNat ∈ jumpDests code.bytes := by
  simp [validJumpDest, code.dests_eq, Std.TreeSet.contains_ofList]

end Code

end EvmCore
