import EvmCore.Memory
import EvmCore.Proofs.NonNegative
import Mathlib

/-!
# Numbers that are words, and byte strings that fit

Every operation of the machine on words gives a word (`Unary.eval_inRange`, `Binary.eval_inRange`,
`Ternary.eval_inRange`), and no operation on words is refused (`Binary.check_of_inRange`). At most
32 bytes write a word (`Bytes.inRange_toWord`).

A slice is no longer than what it is asked for, nor than what it is taken from.
Overwriting bytes that lie within the memory keeps its size (`Memory.size_overwrite`),
so that only growing changes it.
-/

namespace EvmCore

namespace Word

variable {x y z : Word}

/-! ### Words -/

theorem modulus_pos : 0 < modulus := twoPow_pos 256

/-- A natural number of at most 256 bits is a word. -/
theorem inRange_of_lt {n : Nat} (h : n < 2 ^ 256) : InRange (n : Int) :=
  ⟨Int.natCast_nonneg n, Int.ofNat_lt.mpr h⟩

/-- A word is a natural number of at most 256 bits. -/
theorem InRange.exists_nat (h : InRange x) : ∃ n : Nat, x = n ∧ n < 2 ^ 256 := by
  obtain ⟨n, rfl⟩ := Int.eq_ofNat_of_zero_le h.1
  exact ⟨n, rfl, Int.ofNat_lt.mp h.2⟩

theorem inRange_zero : InRange 0 := ⟨le_rfl, modulus_pos⟩

theorem inRange_wrap (v : Int) : InRange (wrap v) :=
  ⟨wrap_nonneg v, Int.emod_lt_of_pos v modulus_pos⟩

theorem inRange_ofBool (b : Bool) : InRange (ofBool b) := by
  cases b with
  | true => exact ⟨Int.one_nonneg, by decide⟩
  | false => exact inRange_zero

theorem inRange_and (hx : InRange x) (hy : InRange y) : InRange (and x y) := by
  obtain ⟨m, rfl, -⟩ := hx.exists_nat
  obtain ⟨n, rfl, hn⟩ := hy.exists_nat
  exact inRange_of_lt (Nat.and_lt_two_pow m hn)

theorem inRange_or (hx : InRange x) (hy : InRange y) : InRange (or x y) := by
  obtain ⟨m, rfl, hm⟩ := hx.exists_nat
  obtain ⟨n, rfl, hn⟩ := hy.exists_nat
  exact inRange_of_lt (Nat.or_lt_two_pow hm hn)

theorem inRange_xor (hx : InRange x) (hy : InRange y) : InRange (xor x y) := by
  obtain ⟨m, rfl, hm⟩ := hx.exists_nat
  obtain ⟨n, rfl, hn⟩ := hy.exists_nat
  exact inRange_of_lt (Nat.xor_lt_two_pow hm hn)

/-- What is missing to the number of words. -/
theorem inRange_modulus_sub {n : Int} (hpos : 0 < n) (hle : n ≤ modulus) : InRange (modulus - n) :=
  ⟨sub_nonneg.mpr hle, sub_lt_self _ hpos⟩

theorem inRange_not (hx : InRange x) : InRange (not x) :=
  inRange_xor hx (inRange_modulus_sub one_pos modulus_pos)

/-- A quotient is no larger than the dividend. -/
theorem inRange_div (hx : InRange x) (hy : InRange y) : InRange (div x y) := by
  refine ⟨div_nonneg hx.1 hy.1, ?_⟩
  rw [div]
  split
  · exact modulus_pos
  · rw [Int.fdiv_eq_ediv_of_nonneg x hy.1]
    exact (Int.ediv_le_self y hx.1).trans_lt hx.2

/-- A remainder is smaller than the divisor. -/
theorem inRange_mod (x : Int) (hy : InRange y) : InRange (mod x y) := by
  refine ⟨mod_nonneg x hy.1, ?_⟩
  rw [mod]
  split
  · exact modulus_pos
  · next hzero => exact (Int.fmod_lt_of_pos x (lt_of_le_of_ne hy.1 (Ne.symm hzero))).trans hy.2

/-- Signed division wraps its result. -/
theorem inRange_sdiv (x y : Word) : InRange (sdiv x y) := by
  rw [sdiv]
  split
  · exact inRange_zero
  · exact inRange_wrap _

/-- So does the signed remainder. -/
theorem inRange_smod (x y : Word) : InRange (smod x y) := by
  rw [smod]
  split
  · exact inRange_zero
  · exact inRange_wrap _

/-- By the recursion of repeated squaring. -/
theorem inRange_pow (base : Int) (n : Nat) : InRange (pow base n) := by
  fun_induction pow base n with
  -- one, the value for half the exponent, or something that is wrapped
  | case1 => exact inRange_ofBool true
  | case2 base n _ half _ ih => exact ih
  | case3 base n _ half _ _ => exact inRange_wrap _

theorem inRange_exp (x y : Word) : InRange (exp x y) := by
  rw [exp]
  split
  · exact inRange_pow _ _
  · exact inRange_pow _ _

/-- Sign extension fills up to a word with ones, or cuts off. -/
theorem inRange_signExtend (x : Word) (hy : InRange y) : InRange (signExtend x y) := by
  rw [signExtend]
  split
  · next hx =>
    -- the sign bit lies within the word
    have hbit (k : Int) (hk : k < 31) : (k * 8 + 7).toNat ≤ 256 := by omega
    have hlow : twoPow (x * 8 + 7).toNat ≤ modulus := twoPow_le (hbit x hx)
    have hpos : 0 < twoPow (x * 8 + 7).toNat := twoPow_pos _
    dsimp only
    split
    · exact inRange_or hy (inRange_modulus_sub hpos hlow)
    · exact ⟨Int.emod_nonneg y hpos.ne', (Int.emod_lt_of_pos y hpos).trans_le hlow⟩
  · exact hy

theorem inRange_byte (x y : Word) : InRange (byte x y) := by
  rw [byte]
  split
  · have hlt (n : Int) : n % 256 < 256 := Int.emod_lt_of_pos n (by decide)
    exact ⟨Int.emod_nonneg _ (by decide), (hlt _).trans (by decide)⟩
  · exact inRange_zero

theorem inRange_shl (x y : Word) : InRange (shl x y) := by
  rw [shl]
  split
  · exact inRange_wrap _
  · exact inRange_zero

/-- A shift to the right makes no number larger. -/
theorem inRange_shr (x : Word) (hy : InRange y) : InRange (shr x y) := by
  rw [shr]
  split
  · obtain ⟨n, rfl, hn⟩ := hy.exists_nat
    exact inRange_of_lt ((Nat.shiftRight_le n _).trans_lt hn)
  · exact inRange_zero

/-- An arithmetic shift ends in all zeros, in all ones, or is wrapped. -/
theorem inRange_sar (x y : Word) : InRange (sar x y) := by
  unfold sar
  extract_lets s
  split
  · split
    · exact inRange_zero
    · exact inRange_modulus_sub one_pos modulus_pos
  · exact inRange_wrap _

/-- Only zero is zero as a signed number. -/
theorem toSigned_ne_zero (hx : InRange x) (hzero : x ≠ 0) : toSigned x ≠ 0 := by
  rw [toSigned]
  split
  · exact hzero
  · exact (sub_neg_of_lt hx.2).ne

end Word

open Word (InRange)

/-- **An operation on one word gives a word.** -/
theorem Unary.eval_inRange (op : Unary) {x : Word} (hx : InRange x) : InRange (op.eval x) := by
  cases op with
  | isZero => exact Word.inRange_ofBool _
  | not => exact Word.inRange_not hx

/-- **An operation on two words gives a word.** -/
theorem Binary.eval_inRange (op : Binary) {x y : Word} (hx : InRange x) (hy : InRange y) :
    InRange (op.eval x y) := by
  -- most of them wrap or compare, and the others need what is known of the operands
  cases op with
  | add | mul | sub => exact Word.inRange_wrap _
  | div => exact Word.inRange_div hx hy
  | sdiv => exact Word.inRange_sdiv x y
  | mod => exact Word.inRange_mod x hy
  | smod => exact Word.inRange_smod x y
  | exp => exact Word.inRange_exp x y
  | signExtend => exact Word.inRange_signExtend x hy
  | lt | gt | slt | sgt | eq => exact Word.inRange_ofBool _
  | and => exact Word.inRange_and hx hy
  | or => exact Word.inRange_or hx hy
  | xor => exact Word.inRange_xor hx hy
  | byte => exact Word.inRange_byte x y
  | shl => exact Word.inRange_shl x y
  | shr => exact Word.inRange_shr x hy
  | sar => exact Word.inRange_sar x y

/-- **An operation on three words gives a word**, since the last of them is the modulus. -/
theorem Ternary.eval_inRange (op : Ternary) (x y : Word) {z : Word} (hz : InRange z) :
    InRange (op.eval x y z) := by
  cases op with
  | addMod => exact Word.inRange_mod _ hz
  | mulMod => exact Word.inRange_mod _ hz

/-- **No operation on words is refused.** -/
theorem Binary.check_of_inRange (op : Binary) {x y : Word} (hx : InRange x) (hy : InRange y) :
    op.check x y = .ok () := by
  -- a shift or an extension must not be negative, nor must an exponent
  cases op with
  | shl | shr | sar | signExtend => exact if_neg (not_lt.mpr hx.1)
  | exp => exact if_neg fun h => absurd h.1 (not_lt.mpr hy.1)
  | sdiv | smod => exact if_neg fun h => Word.toSigned_ne_zero hy h.1 h.2
  | _ => rfl

theorem Address.inRange_toWord (a : Address) : InRange a.toWord :=
  Word.inRange_of_lt (a.isLt.trans (by decide))

/-! ### Byte strings as words -/

namespace Bytes

variable {b : ByteArray} {start stop size : Int}

/-- Each byte makes the bound larger by one factor. -/
theorem foldl_lt (l : List UInt8) (n : Nat) :
    l.foldl (fun n x => n * 256 + x.toNat) n < (n + 1) * 256 ^ l.length := by
  -- by induction on the bytes, from the most significant one on
  induction l generalizing n with
  | nil => simp
  | cons x l ih =>
    have hx : x.toNat < 256 := x.toNat_lt
    calc (x :: l).foldl (fun n x => n * 256 + x.toNat) n
        < (n * 256 + x.toNat + 1) * 256 ^ l.length := ih _
      _ ≤ (n + 1) * 256 * 256 ^ l.length := Nat.mul_le_mul_right _ (by omega)
      _ = (n + 1) * 256 ^ (x :: l).length := by
        rw [List.length_cons, pow_succ, mul_assoc, mul_comm 256]

/-- Bytes write a number that has no more bytes. -/
theorem toNat_lt (b : ByteArray) : toNat b < 256 ^ b.size := by
  rw [toNat, ← Array.foldl_toList]
  have hlt := foldl_lt b.data.toList 0
  rwa [Nat.zero_add, one_mul, Array.length_toList] at hlt

/-- **At most 32 bytes write a word.** -/
theorem inRange_toWord (h : b.size ≤ 32) : InRange (toWord b) := by
  refine Word.inRange_of_lt ((toNat_lt b).trans_le ?_)
  calc 256 ^ b.size ≤ 256 ^ 32 := Nat.pow_le_pow_right (by decide) h
    _ = 2 ^ 256 := by norm_num

/-- A word can be written as bytes. -/
theorem ofWord?_of_inRange {w : Word} (h : InRange w) : ∃ bytes, ofWord? w = some bytes :=
  ⟨_, if_pos h⟩

/-! ### Slices -/

/-- An index that is not negative names itself, up to the end. -/
theorem position_of_nonneg {i : Int} (h : 0 ≤ i) (n : Nat) : position n i = min i.toNat n :=
  if_neg (not_lt.mpr h)

/-- A slice is no longer than what it is taken from. -/
theorem size_slice_le (b : ByteArray) (start stop : Int) : (slice b start stop).size ≤ b.size := by
  rw [slice, ByteArray.size_extract]
  omega

/-- Two indices are at least as far apart as the positions that they name, also where one
of them counts from the end. -/
theorem position_add_le (n : Nat) (i : Int) {k : Int} (hk : 0 ≤ k) :
    (position n (i + k) : Int) ≤ position n i + k := by
  unfold position
  -- each of the two indices may count from the end
  split <;> split <;> omega

/-- A slice is no longer than what was asked for. -/
theorem size_slice_le_of_nonneg (b : ByteArray) (start : Int) (hsize : 0 ≤ size) :
    ((slice b start (start + size)).size : Int) ≤ size := by
  have hle := position_add_le b.size start hsize
  rw [slice, ByteArray.size_extract]
  omega

/-- A slice that lies within the string is as long as what was asked for. -/
theorem size_slice_of_le (hstart : 0 ≤ start) (hsize : 0 ≤ size) (hle : start + size ≤ b.size) :
    ((slice b start (start + size)).size : Int) = size := by
  rw [slice, ByteArray.size_extract, position_of_nonneg hstart,
    position_of_nonneg (Int.add_nonneg hstart hsize)]
  omega

theorem size_zeros (n : Nat) : (zeros n).size = n := Array.size_replicate

/-- A padded slice is as long as what was asked for. -/
theorem size_padSlice (b : ByteArray) (start : Int) (n : Nat) : (padSlice b start n).size = n := by
  have hchunk : ((slice b start (start + n)).size : Int) ≤ n :=
    size_slice_le_of_nonneg b start (Int.natCast_nonneg n)
  unfold padSlice
  rw [ByteArray.size_append, size_zeros]
  omega

/-- Padding up to a size that there is room for. -/
theorem padSlice?_of_le (b : ByteArray) (start : Int) (hsize : 0 ≤ size)
    (hroom : size ≤ storableSize) : ∃ bytes, padSlice? b start size = .ok bytes := by
  have hchunk : ((slice b start (start + size)).size : Int) ≤ size :=
    size_slice_le_of_nonneg b start hsize
  have hchecked : checkedSize (size - (slice b start (start + size)).size) =
      .ok (size - (slice b start (start + size)).size).toNat :=
    checkedSize_of_le (by omega) (by omega)
  -- only the zeros have to be made
  unfold padSlice?
  dsimp only
  rw [hchecked]
  exact ⟨_, rfl⟩

/-- It is as long as what was asked for, if there was room. -/
theorem size_of_padSlice? {bytes : ByteArray} (hsize : 0 ≤ size)
    (h : padSlice? b start size = .ok bytes) : (bytes.size : Int) = size := by
  have hchunk : ((slice b start (start + size)).size : Int) ≤ size :=
    size_slice_le_of_nonneg b start hsize
  obtain ⟨n, hn, h⟩ := except_bind_ok h
  have hn : n = (size - (slice b start (start + size)).size).toNat := by
    rw [checkedSize, if_neg (by omega)] at hn
    split at hn
    · cases hn
    · split at hn
      · cases hn
      · exact (Except.ok.inj hn).symm
  cases h
  rw [ByteArray.size_append, size_zeros, hn]
  omega

end Bytes

/-! ### Memory -/

namespace Memory

variable {m : Memory} {offset : Int} {data : ByteArray}

/-- What is read is no longer than the memory. -/
theorem size_read_le (m : Memory) (offset size : Int) : (m.read offset size).size ≤ m.size := by
  rw [read]
  split
  · exact Nat.zero_le _
  · exact Bytes.size_slice_le m _ _

/-- A word is read from at most 32 bytes. -/
theorem size_readWord_le (m : Memory) (offset : Int) : (m.readWord offset).size ≤ 32 := by
  have hle : ((m.readWord offset).size : Int) ≤ 32 :=
    Bytes.size_slice_le_of_nonneg m offset (by decide)
  omega

/-- Bytes may be written where they end within the memory. -/
theorem checkWrite_ok_iff {size : Nat} :
    m.checkWrite offset size = .ok () ↔ size = 0 ∨ offset + size ≤ m.size := by
  rw [checkWrite]
  split
  · next h => exact ⟨fun _ => h, fun _ => rfl⟩
  · next h => exact ⟨nofun, fun h' => absurd h' h⟩

/-- What is written within the memory takes the place of as many bytes. -/
theorem overwrite_eq (hoffset : 0 ≤ offset) (hle : offset + data.size ≤ m.size)
    (hdata : data.size ≠ 0) :
    m.overwrite offset data =
      m.extract 0 offset.toNat ++ data ++ m.extract (offset.toNat + data.size) m.size := by
  -- neither end is cut off, so as many bytes go in as come out
  have hfirst : Bytes.position m.size offset = offset.toNat := by
    rw [Bytes.position_of_nonneg hoffset]
    omega
  have hlast : Bytes.position m.size (offset + data.size) = offset.toNat + data.size := by
    rw [Bytes.position_of_nonneg (by omega)]
    omega
  rw [overwrite, if_neg hdata, Bytes.splice, hfirst, hlast]
  simp only [if_true, ByteArray.copySlice_eq_append, ByteArray.size_data, Nat.zero_add,
    Nat.sub_zero, min_self, ByteArray.extract_zero_size]

/-- **Overwriting keeps the size**, where what is written lies within the memory. -/
theorem size_overwrite (hoffset : 0 ≤ offset) (h : m.checkWrite offset data.size = .ok ()) :
    (m.overwrite offset data).size = m.size := by
  by_cases hdata : data.size = 0
  · rw [overwrite, if_pos hdata]
  · -- something is written, so its end was checked
    have hle : offset + data.size ≤ m.size := (checkWrite_ok_iff.mp h).resolve_left hdata
    rw [overwrite_eq hoffset hle hdata]
    simp only [ByteArray.size_append, ByteArray.size_extract]
    omega

/-- Setting a byte keeps the size. -/
theorem size_setByte (m : Memory) (i : Nat) (v : UInt8) : (m.setByte i v).size = m.size := by
  rw [setByte]
  split
  · exact Array.size_set _
  · rfl

/-- Memory grows to a size, and never shrinks. -/
theorem size_grow (m : Memory) (size : Nat) : (m.grow size).size = max m.size size := by
  rw [grow]
  split
  · rw [ByteArray.size_append, Bytes.size_zeros]
    omega
  · omega

end Memory

end EvmCore
