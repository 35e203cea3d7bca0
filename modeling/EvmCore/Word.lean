/-!
# Words

The machine computes on 256-bit words. A word is an integer that lies in `[0, 2 ^ 256)`; operations
are defined on all integers, and those of the machine that wrap do so by reduction modulo `2 ^ 256`.
A word is read as a signed number in two's complement by `toSigned`.
-/

namespace EvmCore

/-- An integer that the machine keeps in `[0, 2 ^ 256)`. -/
abbrev Word := Int

namespace Word

/-- Two to the power `n`. -/
def twoPow (n : Nat) : Int := (Nat.pow 2 n : Nat)

/-- The number of words. -/
def modulus : Int := twoPow 256

/-- Being one of the `2 ^ 256` words. -/
def InRange (v : Int) : Prop := 0 ≤ v ∧ v < modulus

instance (v : Int) : Decidable (InRange v) := inferInstanceAs (Decidable (_ ∧ _))

/-- The word congruent to an integer. -/
def wrap (v : Int) : Word := v % modulus

/-- The two's complement value of a word. -/
def toSigned (v : Word) : Int :=
  if 0 ≤ v ∧ v < twoPow 255 then v else v - modulus

/-- The word of a truth value: one for true, zero for false. -/
def ofBool (b : Bool) : Word := if b then 1 else 0

/-! ### Bits

Bitwise operations read a negative integer as an infinite string of bits in two's complement, so
that the complement of `v` is `-v - 1`. -/

/-- All bits flipped. -/
def complement (v : Int) : Int := -v - 1

/-- The bits set in both operands. -/
def and : Int → Int → Int
  | .ofNat m, .ofNat n => .ofNat (m &&& n)
  | .ofNat m, .negSucc n => .ofNat (m - (m &&& n))
  | .negSucc m, .ofNat n => .ofNat (n - (n &&& m))
  | .negSucc m, .negSucc n => .negSucc (m ||| n)

/-- The bits set in at least one operand. -/
def or : Int → Int → Int
  | .ofNat m, .ofNat n => .ofNat (m ||| n)
  | x, y => complement (and (complement x) (complement y))

/-- The bits set in exactly one operand. -/
def xor : Int → Int → Int
  | .ofNat m, .ofNat n => .ofNat (m ^^^ n)
  | x, y => or x y - and x y

/-- All 256 bits of a word flipped. -/
def not (v : Word) : Word := xor v (modulus - 1)

/-- The number of bytes in which the magnitude of an integer can be written. -/
def byteLength (v : Int) : Nat :=
  if v = 0 then 0 else (Nat.log2 v.natAbs + 8) / 8

/-! ### Arithmetic -/

/-- The sum, wrapped. -/
def add (x y : Word) : Word := wrap (x + y)

/-- The difference, wrapped. -/
def sub (x y : Word) : Word := wrap (x - y)

/-- The product, wrapped. -/
def mul (x y : Word) : Word := wrap (x * y)

/-- The quotient rounded down; zero if the divisor is zero. -/
def div (x y : Word) : Word := if y = 0 then 0 else Int.fdiv x y

/-- The remainder of `div`; zero if the divisor is zero. -/
def mod (x y : Word) : Word := if y = 0 then 0 else Int.fmod x y

/-- The quotient of the magnitudes, negated if one of the operands is negative and the other is
not. -/
def quotient (a b : Int) : Int :=
  let z : Int := (a.natAbs / b.natAbs : Nat)
  if decide (a < 0) != decide (b < 0) then -z else z

/-- The remainder of the magnitudes, negated if the dividend is negative. -/
def remainder (a b : Int) : Int :=
  let z : Int := (a.natAbs % b.natAbs : Nat)
  if a < 0 then -z else z

/-- The quotient of the signed values, wrapped; zero if the divisor is zero. -/
def sdiv (x y : Word) : Word :=
  if y = 0 then 0 else wrap (quotient (toSigned x) (toSigned y))

/-- The remainder of the signed values, wrapped; zero if the divisor is zero. -/
def smod (x y : Word) : Word :=
  if y = 0 then 0 else wrap (remainder (toSigned x) (toSigned y))

/-- The sum modulo `m`, computed without wrapping; zero if `m` is zero. -/
def addMod (x y m : Word) : Word := mod (x + y) m

/-- The product modulo `m`, computed without wrapping; zero if `m` is zero. -/
def mulMod (x y m : Word) : Word := mod (x * y) m

/-- `base ^ n` wrapped, by repeated squaring. -/
def pow (base : Int) (n : Nat) : Word :=
  if n = 0 then 1
  else
    let half := pow (wrap (base * base)) (n / 2)
    if n % 2 = 0 then half else wrap (half * base)
termination_by n
decreasing_by omega

/-- The power of a unit that is its inverse: the order of an odd number divides `2 ^ 254`. -/
def inverseExponent : Nat := Nat.pow 2 254 - 1

/-- `base ^ exponent`, wrapped. Below zero these are the powers of the inverse of an odd base. -/
def exp (base exponent : Word) : Word :=
  if exponent < 0 then pow base (inverseExponent * exponent.natAbs) else pow base exponent.toNat

/-- The lowest `k + 1` bytes of a word, extended by their sign bit; the word itself if that is all
of it. -/
def signExtend (k v : Word) : Word :=
  if k < 31 then
    let low := twoPow (k * 8 + 7).toNat
    if v / low % 2 = 1 then or v (modulus - low) else v % low
  else v

/-! ### Comparison -/

/-- Whether `x` is below `y`. -/
def lt (x y : Word) : Word := ofBool (x < y)

/-- Whether `x` is above `y`. -/
def gt (x y : Word) : Word := ofBool (y < x)

/-- Whether the signed value of `x` is below that of `y`. -/
def slt (x y : Word) : Word := ofBool (toSigned x < toSigned y)

/-- Whether the signed value of `x` is above that of `y`. -/
def sgt (x y : Word) : Word := ofBool (toSigned y < toSigned x)

/-- Whether the operands are equal. -/
def eq (x y : Word) : Word := ofBool (x = y)

/-- Whether a word is zero. -/
def isZero (x : Word) : Word := ofBool (x = 0)

/-! ### Bytes and shifts -/

/-- The byte at place `i`, counted from the most significant; zero past the last. -/
def byte (i v : Word) : Word :=
  if i < 32 then Int.shiftRight v (8 * (31 - i)).toNat % 256 else 0

/-- `v` shifted left by `k` bits, wrapped. -/
def shl (k v : Word) : Word := if k < 256 then wrap (v * twoPow k.toNat) else 0

/-- `v` shifted right by `k` bits. -/
def shr (k v : Word) : Word := if k < 256 then Int.shiftRight v k.toNat else 0

/-- `v` shifted right by `k` bits, filling with its sign bit. -/
def sar (k v : Word) : Word :=
  let s := toSigned v
  if 256 ≤ k then (if 0 ≤ s then 0 else modulus - 1) else wrap (Int.shiftRight s k.toNat)

end Word

end EvmCore
