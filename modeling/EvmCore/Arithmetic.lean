import EvmCore.Fault
import EvmCore.Opcode

/-!
# What the arithmetic instructions compute

The word that each instruction leaves, as a function of the words it takes, the topmost first.
-/

namespace EvmCore

/-- The result of an instruction of one operand. -/
def Unary.eval : Unary → Word → Word
  | .isZero => Word.isZero
  | .not => Word.not

/-- The result of an instruction of two operands. -/
def Binary.eval : Binary → Word → Word → Word
  | .add => Word.add
  | .mul => Word.mul
  | .sub => Word.sub
  | .div => Word.div
  | .sdiv => Word.sdiv
  | .mod => Word.mod
  | .smod => Word.smod
  | .exp => Word.exp
  | .signExtend => Word.signExtend
  | .lt => Word.lt
  | .gt => Word.gt
  | .slt => Word.slt
  | .sgt => Word.sgt
  | .eq => Word.eq
  | .and => Word.and
  | .or => Word.or
  | .xor => Word.xor
  | .byte => Word.byte
  | .shl => Word.shl
  | .shr => Word.shr
  | .sar => Word.sar

/-- Refuses a negative number of bits or of bytes, the inverse of an even number, and a divisor
whose signed value alone is zero. All words are admitted. -/
def Binary.check : Binary → Word → Word → Except Fault Unit
  | .shl, x, _ | .shr, x, _ | .sar, x, _ | .signExtend, x, _ =>
    if x < 0 then .error .negativeCount else .ok ()
  | .exp, x, y => if y < 0 ∧ x % 2 = 0 then .error .negativeCount else .ok ()
  | .sdiv, _, y | .smod, _, y =>
    if y ≠ 0 ∧ Word.toSigned y = 0 then .error .divisionByZero else .ok ()
  | _, _, _ => .ok ()

/-- The result of an instruction of three operands. -/
def Ternary.eval : Ternary → Word → Word → Word → Word
  | .addMod => Word.addMod
  | .mulMod => Word.mulMod

end EvmCore
