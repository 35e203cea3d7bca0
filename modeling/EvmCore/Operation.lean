import EvmCore.Gas.Memory
import EvmCore.Gas.Schedule
import EvmCore.Opcode
import EvmCore.Stack

/-!
# The table of operations

What the machine has to know of an instruction before it runs it: the words it takes and leaves,
the gas it costs in any case, the memory it uses, how its other cost is found, and whether it
changes accounts.
-/

namespace EvmCore

/-- The memory that an instruction uses, by the places of its operands on the stack. -/
inductive MemoryUse where
  | none
  /-- From an offset, a length, both on the stack. -/
  | region (offset length : Nat)
  /-- From an offset on the stack, a fixed length. -/
  | fixed (offset : Nat) (length : Int)
  /-- The input region of a call, its offset at place `input` and its length next to it, and the
  region for the output at the two places after. -/
  | callRegions (input : Nat)
  deriving DecidableEq

/-- The memory size that an instruction asks for; nothing if it is out of bounds. -/
def MemoryUse.size? (use : MemoryUse) (stack : Stack) : Except Fault (Option Int) :=
  match use with
  | .none => return some 0
  | .region offset length => return Gas.memorySize? (← stack.back offset) (← stack.back length)
  | .fixed offset length => return Gas.memorySize? (← stack.back offset) length
  | .callRegions input => do
    let some output := Gas.memorySize? (← stack.back (input + 2)) (← stack.back (input + 3))
      | return .none
    let some input := Gas.memorySize? (← stack.back input) (← stack.back (input + 1))
      | return .none
    return some (max output input)

/-- How the cost of an instruction beside its constant cost is found. -/
inductive DynamicCost where
  | none
  /-- The growth of memory. -/
  | memory
  /-- The growth of memory and a price per word of the length at a place on the stack. -/
  | perWord (price : Int) (length : Nat)
  | exp
  | log (topics : Nat)
  | account
  | accountCodeCopy
  | storageLoad
  | storageStore
  | selfDestruct
  | call (kind : CallKind)
  deriving DecidableEq

/-- What the machine has to know of an instruction before it runs it. -/
structure Operation where
  constantGas : Int
  /-- The words taken from the stack. -/
  delta : Nat
  /-- The words left on the stack. -/
  alpha : Nat
  memory : MemoryUse := .none
  dynamic : DynamicCost := .none
  /-- Whether accounts are changed. -/
  writes : Bool := false
  deriving DecidableEq

namespace Operation

/-- The fewest words that the stack may hold before the instruction. -/
def minStack (o : Operation) : Int := Stack.fewestBefore o.delta

/-- The most words that the stack may hold before the instruction. -/
def maxStack (o : Operation) : Int := Stack.mostBefore o.delta o.alpha

end Operation

/-- The constant cost of a function of two words. -/
def Binary.gas : Binary → Int
  | .mul | .div | .sdiv | .mod | .smod | .signExtend => Gas.fastStep
  | .exp => Gas.exp
  | _ => Gas.fastestStep

namespace Opcode

/-- The table entry of an instruction; `INVALID` has none. -/
def operation? : Opcode → Option Operation
  | .stop => some ⟨0, 0, 0, .none, .none, false⟩
  | .unary _ => some ⟨Gas.fastestStep, 1, 1, .none, .none, false⟩
  | .binary .exp => some ⟨Gas.exp, 2, 1, .none, .exp, false⟩
  | .binary op => some ⟨op.gas, 2, 1, .none, .none, false⟩
  | .ternary _ => some ⟨Gas.midStep, 3, 1, .none, .none, false⟩
  | .keccak => some ⟨Gas.keccak, 2, 1, .region 0 1, .perWord Gas.keccakWord 1, false⟩
  | .environment _ => some ⟨Gas.quickStep, 0, 1, .none, .none, false⟩
  | .account _ => some ⟨Gas.warmAccess, 1, 1, .none, .account, false⟩
  | .selfBalance => some ⟨Gas.fastStep, 0, 1, .none, .none, false⟩
  | .callDataLoad => some ⟨Gas.fastestStep, 1, 1, .none, .none, false⟩
  | .blockHash => some ⟨Gas.extStep, 1, 1, .none, .none, false⟩
  | .copy _ => some ⟨Gas.fastestStep, 3, 0, .region 0 2, .perWord Gas.copyWord 2, false⟩
  | .accountCodeCopy => some ⟨Gas.warmAccess, 4, 0, .region 1 3, .accountCodeCopy, false⟩
  | .pop => some ⟨Gas.quickStep, 1, 0, .none, .none, false⟩
  | .memoryLoad => some ⟨Gas.fastestStep, 1, 1, .fixed 0 32, .memory, false⟩
  | .memoryStore => some ⟨Gas.fastestStep, 2, 0, .fixed 0 32, .memory, false⟩
  | .memoryStoreByte => some ⟨Gas.fastestStep, 2, 0, .fixed 0 1, .memory, false⟩
  | .storageLoad => some ⟨0, 1, 1, .none, .storageLoad, false⟩
  | .storageStore => some ⟨0, 2, 0, .none, .storageStore, true⟩
  | .jump => some ⟨Gas.midStep, 1, 0, .none, .none, false⟩
  | .jumpIf => some ⟨Gas.slowStep, 2, 0, .none, .none, false⟩
  | .jumpDest => some ⟨Gas.jumpDest, 0, 0, .none, .none, false⟩
  | .push _ => some ⟨Gas.fastestStep, 0, 1, .none, .none, false⟩
  | .dup n => some ⟨Gas.fastestStep, n.val + 1, n.val + 2, .none, .none, false⟩
  | .swap n => some ⟨Gas.fastestStep, n.val + 2, n.val + 2, .none, .none, false⟩
  | .log n => some ⟨0, n.val + 2, 0, .region 0 1, .log n.val, true⟩
  | .create .create => some ⟨Gas.create, 3, 1, .region 1 2, .memory, true⟩
  | .create .create2 => some ⟨Gas.create, 4, 1, .region 1 2, .perWord Gas.keccakWord 2, true⟩
  | .call .call => some ⟨Gas.warmAccess, 7, 1, .callRegions 3, .call .call, false⟩
  | .call .callCode => some ⟨Gas.warmAccess, 7, 1, .callRegions 3, .call .callCode, false⟩
  | .call .delegateCall => some ⟨Gas.warmAccess, 6, 1, .callRegions 2, .call .delegateCall, false⟩
  | .call .staticCall => some ⟨Gas.warmAccess, 6, 1, .callRegions 2, .call .staticCall, false⟩
  | .return => some ⟨0, 2, 0, .region 0 1, .memory, false⟩
  | .revert => some ⟨0, 2, 0, .region 0 1, .memory, false⟩
  | .invalid => none
  | .selfDestruct => some ⟨Gas.selfDestruct, 1, 0, .none, .selfDestruct, true⟩

end Opcode

/-- The instruction of a byte with its table entry, if the byte can be executed. -/
def lookup? (b : Nat) : Option (Opcode × Operation) := do
  let op ← Opcode.ofByte? b
  let operation ← op.operation?
  return (op, operation)

/-- `lookup?` for all bytes. -/
def lookupTable : Array (Option (Opcode × Operation)) := Array.ofFn fun b : Fin 256 => lookup? b

/-- `lookup?` of a byte, read off the table. -/
def lookup (b : UInt8) : Option (Opcode × Operation) :=
  lookupTable[b.toNat]?.join

/-- The table holds what `lookup?` computes. -/
theorem lookup_eq (b : UInt8) : lookup b = lookup? b.toNat := by
  have h : b.toNat < 256 := b.toNat_lt
  simp [lookup, lookupTable, h]

end EvmCore
