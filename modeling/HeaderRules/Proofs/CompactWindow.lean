import HeaderRules.CompactTarget
import Mathlib.Data.Nat.Bitwise
import Mathlib.Tactic.Ring

/-!
# The window of digits that a code can carry

A code keeps three base-256 digits of a target, those below the position that its exponent names.
This module reads the fields of a code as quotients and remainders, and the mask that reduces a
target to the precision of a code as a *digit window* (`toNat_maskToPrecisionOf`). A window drops
the digits below it, which is rounding, and also every digit above it.
-/

namespace HeaderRules

/-! ## Powers of the base -/

theorem pow_256_pos (k : Nat) : 0 < 256 ^ k := Nat.pow_pos (by decide)

theorem pow_256_le {i j : Nat} (h : i ≤ j) : 256 ^ i ≤ 256 ^ j := Nat.pow_le_pow_right (by decide) h

theorem lt_of_pow_256_lt {i j : Nat} (h : 256 ^ i < 256 ^ j) : i < j :=
  (Nat.pow_lt_pow_iff_right (by decide)).1 h

theorem pow_256_eq_two_pow (k : Nat) : 256 ^ k = 2 ^ (8 * k) := pow_mul 2 8 k ▸ rfl

/-- Three digits taken off a power. -/
theorem pow_256_of_three_le {e : Nat} (he : 3 ≤ e) : 256 ^ e = 256 ^ (e - 3) * 256 ^ 3 := by
  rw [← pow_add, Nat.sub_add_cancel he]

/-- A power taken off three digits. -/
theorem pow_256_three_of_le {e : Nat} (he : e ≤ 3) : 256 ^ 3 = 256 ^ (3 - e) * 256 ^ e := by
  rw [← pow_add, Nat.sub_add_cancel he]

/-! ## Three digits of a number -/

/-- The three base-256 digits of `n` below position `e`, at their own places; fewer where `e` is
below three. -/
def digitWindow (e n : Nat) : Nat := n % 256 ^ e - n % 256 ^ (e - 3)

/-- A window is rounding applied to the digits below its upper end. -/
theorem digitWindow_eq_round (e n : Nat) :
    digitWindow e n = n % 256 ^ e / 256 ^ (e - 3) * 256 ^ (e - 3) := by
  have hdvd : 256 ^ (e - 3) ∣ 256 ^ e := pow_dvd_pow 256 (Nat.sub_le e 3)
  have hmod : n % 256 ^ e % 256 ^ (e - 3) = n % 256 ^ (e - 3) := Nat.mod_mod_of_dvd n hdvd
  rw [digitWindow, Nat.div_mul_self_eq_mod_sub_self, hmod]

theorem digitWindow_le_mod (e n : Nat) : digitWindow e n ≤ n % 256 ^ e := Nat.sub_le _ _

theorem digitWindow_le (e n : Nat) : digitWindow e n ≤ n :=
  (digitWindow_le_mod e n).trans (Nat.mod_le n _)

/-- Below position three a window keeps every digit under its upper end. -/
theorem digitWindow_of_le_three {e : Nat} (he : e ≤ 3) (n : Nat) :
    digitWindow e n = n % 256 ^ e := by
  rw [digitWindow_eq_round, Nat.sub_eq_zero_of_le he, pow_zero, Nat.div_one, Nat.mul_one]

/-- A window keeps nothing exactly when the number has only zeros in it. -/
theorem digitWindow_pos_iff (e n : Nat) :
    0 < digitWindow e n ↔ 256 ^ (e - 3) ≤ n % 256 ^ e := by
  have hunit : 0 < 256 ^ (e - 3) := pow_256_pos (e - 3)
  rw [digitWindow_eq_round, Nat.mul_pos_iff_of_pos_right hunit, Nat.div_pos_iff]
  exact ⟨fun h => h.2, fun h => ⟨hunit, h⟩⟩

/-- Rounding down does not move a number across a multiple of the unit. -/
theorem round_lt_iff {unit bound : Nat} (hunit : 0 < unit) (hdvd : unit ∣ bound) (n : Nat) :
    n / unit * unit < bound ↔ n < bound := by
  obtain ⟨c, rfl⟩ := hdvd
  rw [Nat.mul_comm unit c, Nat.mul_lt_mul_right hunit, Nat.div_lt_iff_lt_mul hunit]

/-- Half of a power of 256 is a multiple of every smaller power. -/
theorem pow_dvd_half_pow {i j : Nat} (hij : i < j) :
    ∃ half, 256 ^ j = 2 * half ∧ 256 ^ i ∣ half := by
  obtain ⟨k, rfl⟩ := Nat.exists_eq_add_of_lt hij
  exact ⟨128 * 256 ^ (i + k), by rw [pow_succ]; ring,
    Dvd.dvd.mul_left (pow_dvd_pow 256 (Nat.le_add_right i k)) 128⟩

/-- Doubled, a window and the digits below its upper end lie below the same powers of 256. -/
theorem two_mul_digitWindow_lt_iff {e j : Nat} (hj : e ≤ j + 1) (n : Nat) :
    2 * digitWindow e n < 256 ^ j ↔ 2 * (n % 256 ^ e) < 256 ^ j := by
  by_cases he : e ≤ 3
  · rw [digitWindow_of_le_three he]
  · -- Half of the power is a multiple of the unit of the window, which rounding does not cross.
    obtain ⟨half, hhalf, hdvd⟩ := pow_dvd_half_pow (show e - 3 < j by omega)
    have hround := round_lt_iff (pow_256_pos (e - 3)) hdvd (n % 256 ^ e)
    rw [digitWindow_eq_round, hhalf]
    omega

/-- A window has the same three digits above its upper end as the number it is cut from. -/
theorem digitWindow_scaled (e n : Nat) :
    digitWindow e n * 256 ^ 3 / 256 ^ e = n % 256 ^ e * 256 ^ 3 / 256 ^ e := by
  by_cases he : e ≤ 3
  · rw [digitWindow_of_le_three he]
  · have hunit : 0 < 256 ^ (e - 3) := pow_256_pos (e - 3)
    rw [digitWindow_eq_round]
    generalize n % 256 ^ e = m
    rw [pow_256_of_three_le (Nat.le_of_not_le he), Nat.mul_div_mul_right _ _ (pow_256_pos 3),
      Nat.mul_div_mul_right _ _ (pow_256_pos 3),
      Nat.mul_div_cancel _ hunit]

/-- Scaling a number to three digits above a size and back rounds it to the unit of that size. -/
theorem scale_div_mul_eq_round (e n : Nat) :
    n * 256 ^ 3 / 256 ^ e * 256 ^ e / 256 ^ 3 = n / 256 ^ (e - 3) * 256 ^ (e - 3) := by
  by_cases he : e ≤ 3
  · have hdvd : 256 ^ e ∣ n * 256 ^ 3 := Dvd.dvd.mul_left (pow_dvd_pow 256 he) n
    rw [Nat.div_mul_cancel hdvd, Nat.mul_div_cancel _ (pow_256_pos 3), Nat.sub_eq_zero_of_le he,
      pow_zero, Nat.div_one, Nat.mul_one]
  · rw [pow_256_of_three_le (Nat.le_of_not_le he), Nat.mul_div_mul_right _ _ (pow_256_pos 3),
      ← Nat.mul_assoc, Nat.mul_div_cancel _ (pow_256_pos 3)]

/-! ## Sizes that leave the sign bit free -/

/-- `e` is the least number of bytes for twice `n`: the exponent that a code of `n` has. -/
def IsCodeSize (e n : Nat) : Prop := 2 * n < 256 ^ e ∧ ∀ k < e, 256 ^ k ≤ 2 * n

instance (e n : Nat) : Decidable (IsCodeSize e n) :=
  inferInstanceAs (Decidable (2 * n < 256 ^ e ∧ ∀ k < e, 256 ^ k ≤ 2 * n))

/-- It is enough to compare with the greatest power below. -/
theorem isCodeSize_succ_iff (e n : Nat) :
    IsCodeSize (e + 1) n ↔ 2 * n < 256 ^ (e + 1) ∧ 256 ^ e ≤ 2 * n :=
  and_congr_right fun _ => ⟨fun h => h e e.lt_succ_self,
    fun h _ hk => (pow_256_le (Nat.lt_succ_iff.1 hk)).trans h⟩

/-- Cutting the window out of the digits below its upper end keeps their size. -/
theorem isCodeSize_digitWindow_iff (e n : Nat) :
    IsCodeSize e (digitWindow e n) ↔ IsCodeSize e (n % 256 ^ e) := by
  cases e with
  | zero => rw [digitWindow_of_le_three (Nat.zero_le 3)]
  | succ e =>
    rw [isCodeSize_succ_iff, isCodeSize_succ_iff, two_mul_digitWindow_lt_iff (Nat.le_succ _),
      ← Nat.not_lt, ← Nat.not_lt, two_mul_digitWindow_lt_iff le_rfl]

/-! ## Fields of a code -/

namespace CompactTarget

/-- The low 24 bits of a code: the mantissa and the sign above it. -/
def field (c : CompactTarget) : Nat := c.bits.toNat % 2 ^ 24

theorem exponent_eq (c : CompactTarget) : c.exponent = c.bits.toNat / 2 ^ 24 := by
  rw [exponent, UInt32.toNat_shiftRight, Nat.shiftRight_eq_div_pow]
  rfl

/-- A code is its exponent byte before its field. -/
theorem toNat_bits_eq (c : CompactTarget) : c.bits.toNat = c.exponent * 2 ^ 24 + c.field := by
  rw [exponent_eq, field]
  omega

/-- The parts that a code was put together from. -/
theorem exponent_and_field_of_bits {c : CompactTarget} {e f : Nat} (hf : f < 2 ^ 24)
    (h : c.bits.toNat = e * 2 ^ 24 + f) : c.exponent = e ∧ c.field = f := by
  rw [exponent_eq, field, h]
  omega

@[ext] theorem ext {c d : CompactTarget} (he : c.exponent = d.exponent) (hf : c.field = d.field) :
    c = d := by
  have hbits : c.bits.toNat = d.bits.toNat := by rw [toNat_bits_eq, toNat_bits_eq, he, hf]
  cases c; cases d
  exact congrArg mk (UInt32.toNat_inj.1 hbits)

theorem toNat_field (c : CompactTarget) : (c.bits &&& 0x00ffffff).toNat = c.field := by
  rw [UInt32.toNat_and]
  exact Nat.and_two_pow_sub_one_eq_mod _ 24

theorem field_lt (c : CompactTarget) : c.field < 2 ^ 24 := Nat.mod_lt _ (by decide)

theorem toNat_mantissa (c : CompactTarget) : c.mantissa.toNat = c.field % 2 ^ 23 := by
  rw [mantissa, UInt32.toNat_and, field, Nat.mod_mod_of_dvd _ (by decide : 2 ^ 23 ∣ 2 ^ 24)]
  exact Nat.and_two_pow_sub_one_eq_mod _ 23

/-- Without a sign the mantissa is the field. -/
theorem toNat_mantissa_of_no_sign {c : CompactTarget} (hsign : c.field < 2 ^ 23) :
    c.mantissa.toNat = c.field := by
  rw [toNat_mantissa, Nat.mod_eq_of_lt hsign]

/-- The sign bit is the top bit of the field. -/
theorem isSigned_iff (c : CompactTarget) : c.isSigned = true ↔ 2 ^ 23 ≤ c.field := by
  have hand : (c.bits &&& 0x00800000).toNat = (c.bits.toNat.testBit 23).toNat * 2 ^ 23 := by
    rw [UInt32.toNat_and]
    exact Nat.and_two_pow _ 23
  have hbit : c.bits.toNat.testBit 23 = true ↔ 2 ^ 23 ≤ c.field := by
    rw [Nat.testBit_eq_decide_div_mod_eq, decide_eq_true_iff, field]
    omega
  rw [isSigned, bne_iff_ne, ne_eq, ← UInt32.toNat_inj, hand, ← hbit]
  cases c.bits.toNat.testBit 23 <;> decide

theorem isSigned_eq_false_iff (c : CompactTarget) : c.isSigned = false ↔ c.field < 2 ^ 23 := by
  rw [← Bool.not_eq_true, isSigned_iff, Nat.not_le]

end CompactTarget

/-! ## The mask -/

/-- Anding with 24 ones at bit `k` keeps 24 bits at their own places. -/
theorem and_shiftLeft_ones (n k : Nat) :
    n &&& (2 ^ 24 - 1) <<< k = n % 2 ^ (k + 24) / 2 ^ k * 2 ^ k := by
  apply Nat.eq_of_testBit_eq
  intro i
  rw [Nat.testBit_and, Nat.testBit_shiftLeft, Nat.testBit_two_pow_sub_one, Nat.testBit_mul_two_pow,
    Nat.testBit_div_two_pow, Nat.testBit_mod_two_pow]
  by_cases hi : k ≤ i
  · rw [Nat.sub_add_cancel hi, Bool.and_comm]
    simp only [ge_iff_le, hi, decide_true, Bool.true_and]
    congr 2
    simp only [eq_iff_iff]
    omega
  · simp [hi]

/-- The mask of a code keeps the three digits of a target below the exponent of the code. -/
theorem Target.toNat_maskToPrecisionOf (t : Target) (c : CompactTarget) :
    (t.maskToPrecisionOf c).toNat = digitWindow c.exponent t.toNat := by
  have hlt : t.toNat < 2 ^ 256 := t.value.isLt
  by_cases he : 3 ≤ c.exponent
  · have hmask : (t.maskToPrecisionOf c).toNat
        = t.toNat &&& (2 ^ 24 - 1) <<< (8 * (c.exponent - 3)) % 2 ^ 256 := by
      simp only [maskToPrecisionOf, if_pos he, toNat, BitVec.toNat_and, BitVec.toNat_shiftLeft]
      rfl
    -- The 256-bit end of the mask cuts off nothing that the target has.
    have hcut (m : Nat) : t.toNat &&& m % 2 ^ 256 = t.toNat &&& m := by
      have hand : t.toNat &&& m < 2 ^ 256 := Nat.and_le_left.trans_lt hlt
      rw [← Nat.mod_eq_of_lt hand, Nat.and_mod_two_pow, Nat.mod_eq_of_lt hlt]
    rw [hmask, hcut, and_shiftLeft_ones, digitWindow_eq_round, pow_256_eq_two_pow,
      pow_256_eq_two_pow]
    congr 4
    omega
  · have hmask : (t.maskToPrecisionOf c).toNat
        = t.toNat &&& (2 ^ 24 - 1) >>> (8 * (3 - c.exponent)) := by
      simp only [maskToPrecisionOf, if_neg he, toNat, BitVec.toNat_and, BitVec.toNat_ushiftRight]
      rfl
    -- Below exponent three the window is cut at its lower end, down to nothing at zero.
    have hones : (2 ^ 24 - 1) >>> (8 * (3 - c.exponent)) = 2 ^ (8 * c.exponent) - 1 := by
      obtain h | h | h : c.exponent = 0 ∨ c.exponent = 1 ∨ c.exponent = 2 := by omega
      all_goals rw [h]; decide
    rw [hmask, hones, Nat.and_two_pow_sub_one_eq_mod, ← pow_256_eq_two_pow,
      digitWindow_of_le_three (by omega)]

end HeaderRules
