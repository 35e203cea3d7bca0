import EvmCore.Proofs.Faultless
import Mathlib

/-!
# Two's complement

A word stands for a signed number: of all integers congruent to it modulo `2 ^ 256`, for the one
that lies in `[-2 ^ 255, 2 ^ 255)` (`toSigned_eq_bmod`). So a number in that range is read back from
the word that it is wrapped to (`toSigned_wrap_of_mem`), and two words that stand for one number are
the same (`eq_of_toSigned_eq`). An instruction that computes on signed numbers is right if its
result lies in the range before it is wrapped.

The instructions divide magnitudes and put the sign back. This is division that truncates
(`quotient_eq_tdiv`, `remainder_eq_tmod`), which is what the rest is proved from.

For the signed quotient the range is left in one place. The magnitudes of the operands are at most
`2 ^ 255`, so the magnitude of the quotient exceeds the range only if it is that of the dividend,
which is the least number of all, and the divisor is `-1` (`tdiv_mem_of_mem`). The remainder is
smaller than the divisor and always fits.
-/

namespace EvmCore

/-! ### Instructions of two operands -/

/-- An instruction of two operands takes `x` and `y` from the stack, leaves `z`
in their place and moves on. -/
def Binary.Leaves (op : Binary) (x y z : Word) : Prop :=
  ∀ (ctx : Context) (forwarded : Int) (f : Frame) (s : State) (rest : Stack),
  f.stack = x :: y :: rest →
    Step.run ctx forwarded (.binary op) ⟨f, s⟩ = .ok () ⟨f.next (z :: rest), s⟩

/-- Every instruction of two operands has a result on words. -/
theorem Binary.leaves_eval (op : Binary) {x y : Word} (hx : Word.InRange x) (hy : Word.InRange y) :
    op.Leaves x y (op.eval x y) := by
  intro ctx forwarded f s rest hstack
  -- on words the check before an operation lets everything pass
  have hcheck : (liftM (op.check x y) : StepM Unit) ⟨{ f with stack := y :: rest }, s⟩ =
      .ok () ⟨{ f with stack := y :: rest }, s⟩ :=
    Step.liftExcept_ok_iff.mpr ⟨op.check_of_inRange hx hy, rfl⟩
  rw [Step.run, bind_of_ok (Step.pop_of_cons hstack), bind_of_ok (Step.peek_of_cons rfl),
    bind_of_ok hcheck, bind_of_ok (Step.poke_of_cons rfl)]
  rfl

namespace Word

variable {x y : Int}

/-! ### Signed values -/

theorem twoPow_eq (n : Nat) : twoPow n = 2 ^ n := Nat.cast_pow 2 n

theorem modulus_eq : modulus = 2 ^ 256 := twoPow_eq 256

theorem InRange.lt (hx : InRange x) : x < 2 ^ 256 := modulus_eq ▸ hx.2

/-- The signed value of a word, in numbers. -/
theorem toSigned_eq (x : Int) : toSigned x = if 0 ≤ x ∧ x < 2 ^ 255 then x else x - 2 ^ 256 := by
  rw [toSigned, modulus_eq, twoPow_eq]

/-- **The signed value of a word** is its balanced residue. -/
theorem toSigned_eq_bmod (hx : InRange x) : toSigned x = x.bmod (2 ^ 256) := by
  have hmod : x % ((2 ^ 256 : Nat) : Int) = x := Int.emod_eq_of_lt hx.1 hx.2
  have hnonneg := hx.1
  rw [toSigned_eq, Int.bmod_def, hmod]
  -- the upper half of the words stands for the negative numbers
  split
  · rw [if_pos (by omega)]
  · rw [if_neg (by omega)]
    rfl

/-- What is wrapped stands for its balanced residue. -/
theorem toSigned_wrap (v : Int) : toSigned (wrap v) = v.bmod (2 ^ 256) := by
  rw [toSigned_eq_bmod (inRange_wrap v), wrap, modulus_eq]
  exact Int.emod_bmod v (2 ^ 256)

/-- A number in the signed range is read back. -/
theorem toSigned_wrap_of_mem {v : Int} (hlow : -2 ^ 255 ≤ v) (hhigh : v < 2 ^ 255) :
    toSigned (wrap v) = v := by
  rw [toSigned_wrap]
  apply Int.bmod_eq_of_le_mul_two
  · push_cast
    omega
  · push_cast
    omega

/-- A word and its signed value are congruent. -/
theorem toSigned_modEq (hx : InRange x) : toSigned x ≡ x [ZMOD 2 ^ 256] := by
  rw [toSigned_eq_bmod hx]
  exact Int.bmod_emod

/-- So are a number and what it is wrapped to. -/
theorem wrap_modEq (v : Int) : wrap v ≡ v [ZMOD 2 ^ 256] := by
  rw [wrap, modulus_eq]
  exact Int.mod_modEq v _

/-- **Signed values lie in the signed range.** -/
theorem toSigned_mem (hx : InRange x) : -2 ^ 255 ≤ toSigned x ∧ toSigned x < 2 ^ 255 := by
  have hlow := Int.le_bmod (x := x) (Nat.two_pow_pos 256)
  have hhigh := Int.bmod_lt (x := x) (Nat.two_pow_pos 256)
  rw [toSigned_eq_bmod hx]
  omega

/-- **A word is known by its signed value.** -/
theorem eq_of_toSigned_eq (hx : InRange x) (hy : InRange y) (h : toSigned x = toSigned y) :
    x = y := by
  have hmod : x ≡ y [ZMOD 2 ^ 256] := (toSigned_modEq hx).symm.trans (h ▸ toSigned_modEq hy)
  calc x = x % 2 ^ 256 := (Int.emod_eq_of_lt hx.1 hx.lt).symm
    _ = y % 2 ^ 256 := hmod
    _ = y := Int.emod_eq_of_lt hy.1 hy.lt

/-! ### Rounding toward zero -/

/-- The integer next to a rational number, on the side of zero. -/
def roundTowardZero (q : ℚ) : Int := if 0 ≤ q then ⌊q⌋ else ⌈q⌉

/-- Rounding toward zero commutes with negation. -/
theorem roundTowardZero_neg (q : ℚ) : roundTowardZero (-q) = -roundTowardZero q := by
  unfold roundTowardZero
  -- on the two sides of zero, the floor and the ceiling change places
  rcases lt_trichotomy q 0 with hneg | rfl | hpos
  · rw [if_pos (neg_nonneg.mpr hneg.le), if_neg (not_le.mpr hneg), Int.floor_neg]
  · rw [neg_zero, if_pos le_rfl, Int.floor_zero, neg_zero]
  · rw [if_neg (not_le.mpr (neg_lt_zero.mpr hpos)), if_pos hpos.le, Int.ceil_neg]

/-- Truncated division is the quotient of rational numbers, rounded toward zero. -/
theorem roundTowardZero_div (a b : Int) : roundTowardZero (a / b) = a.tdiv b := by
  -- but for the signs, it is a quotient of natural numbers
  have hnat (m n : Nat) :
      roundTowardZero (((m : Int) : ℚ) / ((n : Int) : ℚ)) = (m : Int).tdiv n := by
    rw [Int.cast_natCast, Int.cast_natCast, roundTowardZero, if_pos (by positivity),
      Rat.floor_natCast_div_natCast]
    rfl
  -- each sign is taken out of the quotient and put in front of it
  obtain ⟨m, rfl | rfl⟩ := a.eq_nat_or_neg
  · obtain ⟨n, rfl | rfl⟩ := b.eq_nat_or_neg
    · exact hnat m n
    · rw [Int.cast_neg, div_neg, roundTowardZero_neg, hnat, Int.tdiv_neg]
  · obtain ⟨n, rfl | rfl⟩ := b.eq_nat_or_neg
    · rw [Int.cast_neg, neg_div, roundTowardZero_neg, hnat, Int.neg_tdiv]
    · rw [Int.cast_neg, Int.cast_neg, neg_div_neg_eq, hnat, Int.neg_tdiv, Int.tdiv_neg, neg_neg]

/-- A quotient lies in the range of the dividend, unless the dividend is the least
number and changes its sign. -/
theorem tdiv_mem_of_mem {a b n : Int} (hlow : -n ≤ a) (hhigh : a < n) (h : ¬(a = -n ∧ b = -1)) :
    -n ≤ a.tdiv b ∧ a.tdiv b < n := by
  have hnatAbs : (a.tdiv b).natAbs = a.natAbs / b.natAbs := Int.natAbs_tdiv a b
  have hle : (a.tdiv b).natAbs ≤ a.natAbs := hnatAbs ▸ Nat.div_le_self _ _
  refine ⟨by omega, ?_⟩
  by_contra hge
  -- the dividend is divided by one or by minus one
  have ha : a = -n := by omega
  have hself : a.natAbs / b.natAbs = a.natAbs := by omega
  have hone : b.natAbs = 1 := (Nat.div_eq_self.mp hself).resolve_left (by omega)
  rcases Int.natAbs_eq_iff.mp hone with hb | hb
  · rw [hb, Nat.cast_one, Int.tdiv_one] at hge
    omega
  · exact h ⟨ha, hb⟩

/-! ### Division by magnitudes -/

/-- **The quotient of the magnitudes**, negated where the signs differ, is the
truncated quotient. -/
theorem quotient_eq_tdiv (a b : Int) : quotient a b = a.tdiv b := by
  have hnat : ((a.natAbs / b.natAbs : Nat) : Int) = (a.natAbs : Int).tdiv b.natAbs := rfl
  rw [quotient, hnat]
  -- by the four combinations of signs
  rcases lt_or_ge a 0 with ha | ha
  · rw [Int.ofNat_natAbs_of_nonpos ha.le, Int.neg_tdiv, decide_eq_true ha]
    rcases lt_or_ge b 0 with hb | hb
    · rw [Int.ofNat_natAbs_of_nonpos hb.le, Int.tdiv_neg, neg_neg, neg_neg, decide_eq_true hb]
      exact if_neg (by decide)
    · rw [Int.natAbs_of_nonneg hb, neg_neg, decide_eq_false hb.not_gt]
      exact if_pos (by decide)
  · rw [Int.natAbs_of_nonneg ha, decide_eq_false ha.not_gt]
    rcases lt_or_ge b 0 with hb | hb
    · rw [Int.ofNat_natAbs_of_nonpos hb.le, Int.tdiv_neg, neg_neg, decide_eq_true hb]
      exact if_pos (by decide)
    · rw [Int.natAbs_of_nonneg hb, decide_eq_false hb.not_gt]
      exact if_neg (by decide)

/-- **The remainder of the magnitudes**, with the sign of the dividend, is the remainder that the
truncated quotient leaves. -/
theorem remainder_eq_tmod (a b : Int) : remainder a b = a.tmod b := by
  have hnat : ((a.natAbs % b.natAbs : Nat) : Int) = (a.natAbs : Int).tmod b.natAbs := rfl
  -- the sign of the divisor does not matter
  have hdivisor : (a.natAbs : Int).tmod b.natAbs = (a.natAbs : Int).tmod b := by
    rcases lt_or_ge b 0 with hb | hb
    · rw [Int.ofNat_natAbs_of_nonpos hb.le, Int.tmod_neg]
    · rw [Int.natAbs_of_nonneg hb]
  rw [remainder, hnat, hdivisor]
  split
  · next ha => rw [Int.ofNat_natAbs_of_nonpos ha.le, Int.neg_tmod, neg_neg]
  · next ha => rw [Int.natAbs_of_nonneg (not_lt.mp ha)]

/-! ### Division -/

/-- **The signed quotient** is read back, except for the least number divided by minus one. -/
theorem toSigned_sdiv (hx : InRange x) (hy : InRange y) (hzero : y ≠ 0) :
    toSigned (sdiv x y) =
      if x = 2 ^ 255 ∧ y = 2 ^ 256 - 1 then -2 ^ 255 else (toSigned x).tdiv (toSigned y) := by
  split
  · next h =>
    obtain ⟨rfl, rfl⟩ := h
    decide +kernel
  · next h =>
    -- the two words are the only ones with these signed values
    have hoverflow : ¬(toSigned x = -2 ^ 255 ∧ toSigned y = -1) := by
      rintro ⟨hleast, hminus⟩
      have hxy : x = 2 ^ 255 ∧ y = 2 ^ 256 - 1 := by
        have hltx := hx.lt
        have hlty := hy.lt
        rw [toSigned_eq] at hleast hminus
        split at hleast
        · omega
        · split at hminus
          · omega
          · omega
      exact h hxy
    obtain ⟨hlow, hhigh⟩ := tdiv_mem_of_mem (toSigned_mem hx).1 (toSigned_mem hx).2 hoverflow
    rw [sdiv, if_neg hzero, quotient_eq_tdiv, toSigned_wrap_of_mem hlow hhigh]

/-- A remainder is smaller than the divisor, in magnitude. -/
theorem natAbs_tmod_lt (a : Int) (hy : InRange y) (hzero : y ≠ 0) :
    (a.tmod (toSigned y)).natAbs < (toSigned y).natAbs := by
  rw [Int.natAbs_tmod]
  exact Nat.mod_lt _ (Int.natAbs_pos.mpr (toSigned_ne_zero hy hzero))

/-- **The signed remainder** is always read back. -/
theorem toSigned_smod (x : Int) (hy : InRange y) (hzero : y ≠ 0) :
    toSigned (smod x y) = (toSigned x).tmod (toSigned y) := by
  have hlt := natAbs_tmod_lt (toSigned x) hy hzero
  have hmem := toSigned_mem hy
  rw [smod, if_neg hzero, remainder_eq_tmod]
  exact toSigned_wrap_of_mem (by omega) (by omega)

/-- Quotient and remainder make up the dividend, modulo the number of words. -/
theorem mul_sdiv_add_smod (hx : InRange x) (hy : InRange y) (hzero : y ≠ 0) :
    y * sdiv x y + smod x y ≡ x [ZMOD 2 ^ 256] := by
  rw [sdiv, if_neg hzero, smod, if_neg hzero, quotient_eq_tdiv, remainder_eq_tmod]
  -- congruences can be multiplied and added, so the wraps do not matter
  calc y * wrap ((toSigned x).tdiv (toSigned y)) + wrap ((toSigned x).tmod (toSigned y))
      ≡ toSigned y * (toSigned x).tdiv (toSigned y) + (toSigned x).tmod (toSigned y)
        [ZMOD 2 ^ 256] :=
        ((toSigned_modEq hy).symm.mul (wrap_modEq _)).add (wrap_modEq _)
    _ = toSigned x := Int.mul_tdiv_add_tmod _ _
    _ ≡ x [ZMOD 2 ^ 256] := toSigned_modEq hx

/-- **Signed division is exact two's complement.** On all words the two instructions have results.
Divided by zero they are zero. Otherwise both are words that make up the dividend modulo `2 ^ 256`.
The remainder is smaller than the divisor in magnitude, and is zero or has the sign of the dividend.
The quotient is rounded toward zero, except that `-2 ^ 255` divided by `-1` is `-2 ^ 255`. -/
theorem signed_division_is_exact {x y : Word} (hx : InRange x) (hy : InRange y) :
    Binary.sdiv.Leaves x y (sdiv x y) ∧ Binary.smod.Leaves x y (smod x y) ∧
    (y = 0 → sdiv x y = 0 ∧ smod x y = 0) ∧
    (y ≠ 0 →
      InRange (sdiv x y) ∧ InRange (smod x y) ∧
      y * sdiv x y + smod x y ≡ x [ZMOD 2 ^ 256] ∧
      |toSigned (smod x y)| < |toSigned y| ∧
      (toSigned (smod x y) = 0 ∨ (toSigned (smod x y)).sign = (toSigned x).sign) ∧
      toSigned (sdiv x y) =
        if x = 2 ^ 255 ∧ y = 2 ^ 256 - 1 then -2 ^ 255
        else roundTowardZero ((toSigned x : ℚ) / (toSigned y : ℚ))) := by
  refine ⟨Binary.sdiv.leaves_eval hx hy, Binary.smod.leaves_eval hx hy, fun hzero => ?_,
    fun hzero => ?_⟩
  · exact ⟨if_pos hzero, if_pos hzero⟩
  · refine ⟨inRange_sdiv x y, inRange_smod x y, mul_sdiv_add_smod hx hy hzero, ?_, ?_, ?_⟩
    · rw [toSigned_smod x hy hzero, Int.abs_eq_natAbs, Int.abs_eq_natAbs]
      exact Int.ofNat_lt.mpr (natAbs_tmod_lt _ hy hzero)
    · rw [toSigned_smod x hy hzero, ← Int.sign_eq_zero_iff_zero, Int.sign_tmod]
      split
      · exact .inl rfl
      · exact .inr rfl
    · rw [toSigned_sdiv hx hy hzero, roundTowardZero_div]

/-- Minus seven divided by two is minus three, with a negative remainder. The least number divided
by minus one is itself, and anything divided by zero is zero. -/
theorem minus_seven_by_two_is_minus_three :
    let x : Word := 2 ^ 256 - 7
    (Binary.sdiv.Leaves x 2 (sdiv x 2) ∧
      toSigned (sdiv x 2) = roundTowardZero (((-7 : Int) : ℚ) / ((2 : Int) : ℚ)) ∧
      toSigned (sdiv x 2) = -3 ∧
      |toSigned (smod x 2)| < |2| ∧ (toSigned (smod x 2) = 0 ∨ (toSigned (smod x 2)).sign = -1)) ∧
    toSigned (sdiv (2 ^ 255) (2 ^ 256 - 1)) = -2 ^ 255 ∧ sdiv x 0 = 0 := by
  intro x
  have hx : InRange x := by decide +kernel
  have hseven : toSigned x = -7 := by decide +kernel
  have htwo : toSigned 2 = 2 := by decide +kernel
  obtain ⟨hleaves, -, -, hdivided⟩ := signed_division_is_exact (y := 2) hx (by decide +kernel)
  obtain ⟨-, -, -, hsmall, hsign, hquotient⟩ := hdivided (by decide)
  rw [if_neg (by decide +kernel), hseven, htwo] at hquotient
  rw [htwo] at hsmall
  rw [hseven] at hsign
  obtain ⟨-, -, -, hleast⟩ :=
    signed_division_is_exact (x := 2 ^ 255) (y := 2 ^ 256 - 1) (by decide +kernel)
      (by decide +kernel)
  refine ⟨⟨hleaves, hquotient, ?_, hsmall, hsign⟩, ?_, ?_⟩
  · rw [hquotient, roundTowardZero_div]
    decide
  · exact (hleast (by decide +kernel)).2.2.2.2.2
  · exact ((signed_division_is_exact (y := 0) hx inRange_zero).2.2.1 rfl).1

end Word

end EvmCore
