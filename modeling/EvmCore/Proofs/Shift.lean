import EvmCore.Proofs.TwosComplement
import Mathlib

/-!
# Shifts and sign extension

A shift by `k` bits divides or multiplies by `2 ^ k`, also where `k` exceeds the width of a word:
there the power exceeds every word, so the quotient is zero or, for a negative number, minus one,
and the product is a multiple of `2 ^ 256`.

Sign extension from a byte sets or clears all bits above the sign bit with a mask. What the mask
does to a number is said in arithmetic by `or_two_pow_sub_two_pow`, and what the sign bit means for
the balanced residue by `bmod_two_pow_succ`. Together they make the signed value of the result the
balanced residue modulo the power of two that is left (`toSigned_signExtend`). The laws of sign
extension are then laws of balanced residues.
-/

namespace EvmCore

namespace Word

variable {k v : Int}

/-! ### Shifts -/

/-- A shift by at least the width of a word, as a natural number. -/
theorem width_le_toNat (hk : 256 ≤ k) : 256 ≤ k.toNat := by omega

/-- The power of two that belongs to it is more than any word. -/
theorem two_pow_le_of_le (hk : 256 ≤ k) : (2 : Int) ^ 256 ≤ 2 ^ k.toNat :=
  pow_le_pow_right₀ one_le_two (width_le_toNat hk)

/-- A shift of an integer is a division. -/
theorem shiftRight_eq (a : Int) (n : Nat) : Int.shiftRight a n = a / 2 ^ n := by
  rw [← Int.shiftRight_eq, Int.shiftRight_eq_div_pow, Nat.cast_pow, Nat.cast_ofNat]

/-- The quotient of rational numbers, rounded down, is that of integers. -/
theorem floor_div_two_pow (a : Int) (n : Nat) : ⌊(a : ℚ) / 2 ^ n⌋ = a / 2 ^ n := by
  have hfloor := Rat.floor_intCast_div_natCast a (2 ^ n)
  push_cast at hfloor
  exact hfloor

/-- **Shifting right** divides, rounding down. -/
theorem shr_eq (k : Int) (hv : InRange v) : shr k v = v / 2 ^ k.toNat := by
  rw [shr]
  -- a shift that is wide enough leaves nothing
  split
  · exact shiftRight_eq v k.toNat
  · next hk =>
    exact (Int.ediv_eq_zero_of_lt hv.1 (hv.lt.trans_le (two_pow_le_of_le (not_lt.mp hk)))).symm

/-- **Shifting left** multiplies. -/
theorem shl_eq (k v : Int) : shl k v = v * 2 ^ k.toNat % 2 ^ 256 := by
  rw [shl]
  split
  · rw [wrap, modulus_eq, twoPow_eq]
  · next hk =>
    have hdvd : (2 : Int) ^ 256 ∣ 2 ^ k.toNat := pow_dvd_pow 2 (width_le_toNat (not_lt.mp hk))
    exact (Int.emod_eq_zero_of_dvd (hdvd.mul_left v)).symm

/-- Dividing by a power of two stays in the signed range. -/
theorem ediv_two_pow_mem {a : Int} (hlow : -2 ^ 255 ≤ a) (hhigh : a < 2 ^ 255) (n : Nat) :
    -2 ^ 255 ≤ a / 2 ^ n ∧ a / 2 ^ n < 2 ^ 255 := by
  have hpos : (0 : Int) < 2 ^ n := Int.pow_pos two_pos
  constructor
  · refine Int.le_ediv_of_mul_le hpos (le_trans ?_ hlow)
    nlinarith
  · refine Int.ediv_lt_of_lt_mul hpos (hhigh.trans_le ?_)
    nlinarith

/-- **Shifting right with the sign** divides the signed value, rounding down. -/
theorem toSigned_sar (k : Int) (hv : InRange v) :
    toSigned (sar k v) = toSigned v / 2 ^ k.toNat := by
  obtain ⟨hlow, hhigh⟩ := toSigned_mem hv
  unfold sar
  extract_lets s
  split
  · next hk =>
    -- a shift by all the bits leaves only the sign
    have hle : (2 : Int) ^ 256 ≤ 2 ^ k.toNat := two_pow_le_of_le hk
    split
    · next hs =>
      have hzero : s / 2 ^ k.toNat = 0 := Int.ediv_eq_zero_of_lt hs (by omega)
      rw [hzero]
      rfl
    · next hs =>
      have hminus : s / 2 ^ k.toNat = -1 :=
        Int.ediv_eq_neg_one_of_neg_of_le (not_le.mp hs) (by omega)
      rw [hminus]
      decide +kernel
  · rw [shiftRight_eq]
    obtain ⟨hlow', hhigh'⟩ := ediv_two_pow_mem hlow hhigh k.toNat
    exact toSigned_wrap_of_mem hlow' hhigh'

/-! ### Sign extension -/

/-- Setting all bits of a word from place `b` on. -/
theorem or_two_pow_sub_two_pow {n b : Nat} (hn : n < 2 ^ 256) (hb : b ≤ 256) :
    n ||| (2 ^ 256 - 2 ^ b) = 2 ^ 256 - 2 ^ b + n % 2 ^ b := by
  have hmask : 2 ^ 256 - 2 ^ b = 2 ^ b * (2 ^ (256 - b) - 1) := by
    rw [Nat.mul_sub_one, ← Nat.pow_add, Nat.add_sub_cancel' hb]
  rw [hmask, Nat.two_pow_add_eq_or_of_lt (Nat.mod_lt n (Nat.two_pow_pos b))]
  -- bit by bit: below `b`, from `b` up to the width, and beyond
  refine Nat.eq_of_testBit_eq fun i => ?_
  rw [Nat.testBit_or, Nat.testBit_or, Nat.testBit_two_pow_mul, Nat.testBit_mod_two_pow,
    Nat.testBit_two_pow_sub_one]
  by_cases hi : i < b
  · simp [hi, Bool.or_comm]
  · by_cases hwide : i < 256
    · have hin : i - b < 256 - b := by omega
      simp [hi, hin, not_lt.mp hi]
    · -- the word has no bits so far up
      have hbit : n.testBit i = false :=
        Nat.testBit_lt_two_pow (hn.trans_le (Nat.pow_le_pow_right two_pos (by omega)))
      simp [hi, hbit]

/-- The balanced residue modulo `2 ^ (b + 1)` by the sign bit, at place `b`. -/
theorem bmod_two_pow_succ (v : Int) (b : Nat) :
    v.bmod (2 ^ (b + 1)) = if v / 2 ^ b % 2 = 1 then v % 2 ^ b - 2 ^ b else v % 2 ^ b := by
  have hpos : (0 : Int) < 2 ^ b := Int.pow_pos two_pos
  have hlow : 0 ≤ v % 2 ^ b := Int.emod_nonneg v hpos.ne'
  have hhigh : v % 2 ^ b < 2 ^ b := Int.emod_lt_of_pos v hpos
  have hdiv : 2 ^ b * (v / 2 ^ b) + v % 2 ^ b = v := Int.mul_ediv_add_emod v (2 ^ b)
  have hbits : 2 * (v / 2 ^ b / 2) + v / 2 ^ b % 2 = v / 2 ^ b := Int.mul_ediv_add_emod _ 2
  rw [Int.bmod_eq_iff (Nat.two_pow_pos _), Nat.cast_pow, Nat.cast_ofNat, pow_succ]
  -- with a name for the power everything else is linear
  generalize (2 : Int) ^ b = p at *
  split
  · next hbit =>
    refine ⟨by omega, by omega, -(v / p / 2) - 1, ?_⟩
    rw [hbit] at hbits
    linear_combination hdiv + p * hbits
  · next hbit =>
    rw [(Int.emod_two_eq_zero_or_one (v / p)).resolve_right hbit] at hbits
    refine ⟨by omega, by omega, -(v / p / 2), ?_⟩
    linear_combination hdiv + p * hbits

/-- The bit-or of two natural numbers. -/
theorem or_natCast (m n : Nat) : or (m : Int) (n : Int) = ((m ||| n : Nat) : Int) := rfl

/-- **Sign extension** gives a word the signed value of its lowest `k + 1` bytes. -/
theorem toSigned_signExtend (hk : 0 ≤ k) (hlt : k < 31) (hv : InRange v) :
    toSigned (signExtend k v) = v.bmod (2 ^ (8 * (k.toNat + 1))) := by
  obtain ⟨b, hb, hbound⟩ : ∃ b : Nat, (k * 8 + 7).toNat = b ∧ 8 * (k.toNat + 1) = b + 1 ∧ b ≤ 247 :=
    ⟨_, rfl, by omega, by omega⟩
  have hpos : (0 : Int) < 2 ^ b := Int.pow_pos two_pos
  have hle : (2 : Int) ^ b ≤ 2 ^ 255 := pow_le_pow_right₀ one_le_two (by omega)
  have hlow : 0 ≤ v % 2 ^ b := Int.emod_nonneg v hpos.ne'
  have hhigh : v % 2 ^ b < 2 ^ b := Int.emod_lt_of_pos v hpos
  rw [hbound.1, bmod_two_pow_succ, signExtend, if_pos hlt, hb]
  simp only [twoPow_eq, modulus_eq]
  split
  · -- the mask adds what is missing to the number of words
    have hor : or v (2 ^ 256 - 2 ^ b) = 2 ^ 256 - 2 ^ b + v % 2 ^ b := by
      obtain ⟨n, rfl, hn⟩ := hv.exists_nat
      have hmask : (2 : Int) ^ 256 - 2 ^ b = ((2 ^ 256 - 2 ^ b : Nat) : Int) := by
        rw [Nat.cast_sub (Nat.pow_le_pow_right two_pos (by omega))]
        push_cast
        rfl
      rw [hmask, or_natCast, or_two_pow_sub_two_pow hn (by omega)]
      push_cast
      rfl
    rw [hor, toSigned_eq, if_neg (by omega)]
    omega
  · rw [toSigned_eq, if_pos (by omega)]

/-- Only the bits that are extended count. -/
theorem bmod_toSigned {n : Nat} (hn : n ≤ 256) (hv : InRange v) :
    (toSigned v).bmod (2 ^ n) = v.bmod (2 ^ n) := by
  rw [toSigned_eq_bmod hv, Int.bmod_bmod_of_dvd (pow_dvd_pow 2 hn)]

/-- **Extending twice is extending once.** -/
theorem signExtend_signExtend (hk : 0 ≤ k) (hv : InRange v) :
    signExtend k (signExtend k v) = signExtend k v := by
  by_cases hlt : k < 31
  · have hw : InRange (signExtend k v) := inRange_signExtend k hv
    refine eq_of_toSigned_eq (inRange_signExtend k hw) hw ?_
    rw [toSigned_signExtend hk hlt hw, ← bmod_toSigned (by omega) hw, toSigned_signExtend hk hlt hv,
      Int.bmod_bmod]
  · rw [signExtend, if_neg hlt]

/-- **Sign extension by shifting**: the bytes go to the top of the word and
come back with their sign. -/
theorem signExtend_eq_sar_shl (hk : 0 ≤ k) (hlt : k < 31) (hv : InRange v) :
    signExtend k v = sar (248 - 8 * k) (shl (248 - 8 * k) v) := by
  obtain ⟨c, hc, hwidth⟩ : ∃ c : Nat, (248 - 8 * k).toNat = c ∧ c + 8 * (k.toNat + 1) = 256 :=
    ⟨_, rfl, by omega⟩
  have hpos : (0 : Int) < 2 ^ c := Int.pow_pos two_pos
  -- shifted to the top, the bytes keep their sign and lose what was above them
  have hshifted : toSigned (shl (248 - 8 * k) v) = 2 ^ c * v.bmod (2 ^ (8 * (k.toNat + 1))) := by
    have hmul := Int.mod_bmod_mul_of_pos v (2 ^ (8 * (k.toNat + 1))) (Nat.two_pow_pos c)
      (dvd_pow_self 2 (by omega))
    rw [← pow_add, hwidth, Nat.cast_pow, Nat.cast_ofNat] at hmul
    rw [toSigned_eq_bmod (inRange_shl _ _), shl_eq, hc, mul_comm v, ← hmul]
    exact Int.emod_bmod _ (2 ^ 256)
  refine eq_of_toSigned_eq (inRange_signExtend k hv) (inRange_sar _ _) ?_
  rw [toSigned_sar _ (inRange_shl _ _), hshifted, hc, Int.mul_ediv_cancel_left _ hpos.ne',
    toSigned_signExtend hk hlt hv]

/-- **Shifts and sign extension mean what two's complement says.** On all words the instructions
have results, which are words. Shifting right divides the number, or its signed value, by a power
of two and rounds down, and shifting left multiplies by it, by however many bits. Extending the
sign of the lowest `k + 1` bytes gives a word the value that these bytes have in two's
complement, as long as there are bytes above them; doing so twice is doing it once, and so is
shifting the bytes to the top and back. -/
theorem shifts_and_sign_extension_are_exact {k v : Word} (hk : InRange k) (hv : InRange v) :
    (Binary.sar.Leaves k v (sar k v) ∧ InRange (sar k v) ∧
      toSigned (sar k v) = ⌊(toSigned v : ℚ) / 2 ^ k.toNat⌋) ∧
    (Binary.shr.Leaves k v (shr k v) ∧ InRange (shr k v) ∧ shr k v = ⌊(v : ℚ) / 2 ^ k.toNat⌋) ∧
    (Binary.shl.Leaves k v (shl k v) ∧ InRange (shl k v) ∧ shl k v = v * 2 ^ k.toNat % 2 ^ 256) ∧
    (Binary.signExtend.Leaves k v (signExtend k v) ∧ InRange (signExtend k v) ∧
      (k < 31 → toSigned (signExtend k v) = (BitVec.ofInt (8 * (k.toNat + 1)) v).toInt) ∧
      (31 ≤ k → signExtend k v = v) ∧
      signExtend k (signExtend k v) = signExtend k v ∧
      (k < 31 → signExtend k v = sar (248 - 8 * k) (shl (248 - 8 * k) v))) := by
  refine ⟨⟨Binary.sar.leaves_eval hk hv, inRange_sar k v, ?_⟩,
    ⟨Binary.shr.leaves_eval hk hv, inRange_shr k hv, ?_⟩,
    ⟨Binary.shl.leaves_eval hk hv, inRange_shl k v, shl_eq k v⟩,
    ⟨Binary.signExtend.leaves_eval hk hv, inRange_signExtend k hv, fun hlt => ?_, fun hge => ?_,
      signExtend_signExtend hk.1 hv, fun hlt => signExtend_eq_sar_shl hk.1 hlt hv⟩⟩
  · rw [floor_div_two_pow, toSigned_sar k hv]
  · rw [floor_div_two_pow, shr_eq k hv]
  · rw [BitVec.toInt_ofInt, toSigned_signExtend hk.1 hlt hv]
  · rw [signExtend, if_neg (not_lt.mpr hge)]

/-- Shifting minus five right by one bit gives minus three, and by more bits than a word has minus
one. The byte `0x80` extended by its sign is minus 128. -/
theorem shifted_and_extended_negative_numbers :
    let v : Word := 2 ^ 256 - 5
    (Binary.sar.Leaves 1 v (sar 1 v) ∧ toSigned (sar 1 v) = ⌊((-5 : Int) : ℚ) / 2 ^ 1⌋ ∧
      toSigned (sar 1 v) = -3) ∧
    (toSigned (sar 300 v) = ⌊((-5 : Int) : ℚ) / 2 ^ 300⌋ ∧ toSigned (sar 300 v) = -1 ∧
      shl 300 v = v * 2 ^ 300 % 2 ^ 256 ∧ shl 300 v = 0) ∧
    (toSigned (signExtend 0 0x1280) = (BitVec.ofInt 8 0x1280).toInt ∧
      toSigned (signExtend 0 0x1280) = -128 ∧
      signExtend 0 0x1280 = sar 248 (shl 248 0x1280)) ∧
    signExtend 31 v = v := by
  intro v
  have hv : InRange v := by decide +kernel
  have hfive : toSigned v = -5 := by decide +kernel
  obtain ⟨⟨hleaves, -, hone⟩, -⟩ :=
    shifts_and_sign_extension_are_exact (k := 1) (by decide +kernel) hv
  obtain ⟨⟨-, -, hfar⟩, -, ⟨-, -, hleft⟩, -⟩ :=
    shifts_and_sign_extension_are_exact (k := 300) (by decide +kernel) hv
  obtain ⟨-, -, -, -, -, hextended, -, -, hshifted⟩ :=
    shifts_and_sign_extension_are_exact (k := 0) (v := 0x1280) inRange_zero (by decide +kernel)
  obtain ⟨-, -, -, -, -, -, hwhole, -⟩ :=
    shifts_and_sign_extension_are_exact (k := 31) (by decide +kernel) hv
  rw [hfive] at hone hfar
  refine ⟨⟨hleaves, hone, ?_⟩, ⟨hfar, ?_, hleft, ?_⟩,
    ⟨hextended (by decide), ?_, hshifted (by decide)⟩, hwhole (by decide)⟩
  · decide +kernel
  · decide +kernel
  · decide +kernel
  · decide +kernel

end Word

end EvmCore
