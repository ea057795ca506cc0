import HeaderRules.Proofs.CompactCodec
import Mathlib.Algebra.Order.Floor.Semifield
import Mathlib.Data.Rat.Floor

/-!
# The value of a code

A code stands for its mantissa times a power of 256, which is a rational number: below exponent
three the power divides. The decoder never forms that number. It looks at the sign, compares the
exponent and the mantissa with a few constants, and shifts. This is nevertheless the same as
deciding whether the number is negative and whether it is below 2²⁵⁶, and then rounding it down
(`decodes_exactly_values_that_fit`).

The range check compares bytes: with an exponent of 34, 33 or 32 a mantissa has room for one, two or
all three of them. Both directions of that equivalence come from the lemmas on
`mantissa · 256 ^ exponent`, which is the value with three digits more and a whole number
(`CompactTarget.value_eq_div`).
-/

namespace HeaderRules

namespace CompactTarget

variable {c : CompactTarget}

/-! ## Values as rational numbers -/

/-- What a code stands for when its sign is left aside. -/
def value (c : CompactTarget) : ℚ := c.mantissa.toNat * 256 ^ ((c.exponent : ℤ) - 3)

/-- A code is its exponent byte, its sign bit and its mantissa one after the other. -/
theorem toNat_bits_eq_parts (c : CompactTarget) :
    c.bits.toNat = c.exponent * 2 ^ 24 + c.isSigned.toNat * 2 ^ 23 + c.mantissa.toNat := by
  have hfield : c.field = c.isSigned.toNat * 2 ^ 23 + c.mantissa.toNat := by
    have hlt := c.field_lt
    rw [toNat_mantissa]
    by_cases hset : 2 ^ 23 ≤ c.field
    · rw [c.isSigned_iff.2 hset, Bool.toNat_true]
      omega
    · rw [c.isSigned_eq_false_iff.2 (Nat.lt_of_not_le hset), Bool.toNat_false]
      omega
  rw [toNat_bits_eq, hfield, Nat.add_assoc]

/-- Three digits are divided off a whole number. -/
theorem value_eq_div (c : CompactTarget) :
    c.value = ((c.mantissa.toNat * 256 ^ c.exponent : ℕ) : ℚ) / ((256 ^ 3 : ℕ) : ℚ) := by
  unfold value
  rw [zpow_sub₀ (by norm_num), zpow_natCast]
  push_cast
  rw [mul_div_assoc]

theorem value_lt_iff (c : CompactTarget) :
    c.value < 2 ^ 256 ↔ c.mantissa.toNat * 256 ^ c.exponent < 256 ^ 35 := by
  have hbound : (2 : ℚ) ^ 256 * ((256 ^ 3 : ℕ) : ℚ) = ((256 ^ 35 : ℕ) : ℚ) := by norm_num
  rw [value_eq_div, div_lt_iff₀ (by norm_num), hbound, Nat.cast_lt]

theorem floor_value (c : CompactTarget) :
    ⌊c.value⌋₊ = c.mantissa.toNat * 256 ^ c.exponent / 256 ^ 3 := by
  rw [value_eq_div, Nat.floor_div_eq_div]

/-- The whole part of a value as a shift that has room for every bit. -/
theorem floor_value_eq_shift (c : CompactTarget) :
    ⌊c.value⌋₊ = if c.exponent ≤ 3 then c.mantissa.toNat >>> (8 * (3 - c.exponent))
      else c.mantissa.toNat <<< (8 * (c.exponent - 3)) := by
  rw [floor_value]
  by_cases he : c.exponent ≤ 3
  · rw [if_pos he, Nat.shiftRight_eq_div_pow, ← pow_256_eq_two_pow, pow_256_three_of_le he,
      Nat.mul_div_mul_right _ _ (pow_256_pos c.exponent)]
  · rw [if_neg he, Nat.shiftLeft_eq, ← pow_256_eq_two_pow, pow_256_of_three_le (by omega),
      ← Nat.mul_assoc, Nat.mul_div_cancel _ (pow_256_pos 3)]

end CompactTarget

namespace Target

open CompactTarget

variable {c : CompactTarget}

/-! ## The four ways through the decoder -/

theorem ofCompact?_of_no_mantissa (h : c.mantissa.toNat = 0) : ofCompact? c = some zero := by
  have hzero : c.mantissa = 0 := UInt32.toNat_inj.1 h
  rw [ofCompact?, if_pos hzero]

theorem mantissa_ne_zero (hm : 0 < c.mantissa.toNat) : c.mantissa ≠ 0 := by
  intro hzero
  rw [hzero] at hm
  exact absurd hm (Nat.lt_irrefl 0)

theorem ofCompact?_of_negative (hm : 0 < c.mantissa.toNat) (hs : c.isSigned = true) :
    ofCompact? c = none := by
  rw [ofCompact?, if_neg (mantissa_ne_zero hm), if_pos hs]

/-- Without a sign the mantissa is the whole field. -/
theorem field_eq_of_positive (hs : c.isSigned = false) :
    c.field = c.mantissa.toNat ∧ c.field < 2 ^ 23 := by
  have hfree := (isSigned_eq_false_iff c).1 hs
  exact ⟨(toNat_mantissa_of_no_sign hfree).symm, hfree⟩

theorem ofCompact?_of_value_lt (hs : c.isSigned = false) (hfit : c.value < 2 ^ 256) :
    ∃ t, ofCompact? c = some t ∧ t.toNat = ⌊c.value⌋₊ := by
  obtain ⟨hfield, hfree⟩ := field_eq_of_positive hs
  rw [value_lt_iff, ← hfield] at hfit
  rw [floor_value, ← hfield]
  exact ofCompact?_of_fits hfree hfit

theorem ofCompact?_of_le_value (hm : 0 < c.mantissa.toNat) (hs : c.isSigned = false)
    (hover : 2 ^ 256 ≤ c.value) : ofCompact? c = none := by
  obtain ⟨hfield, hfree⟩ := field_eq_of_positive hs
  rw [hfield] at hfree
  rw [← not_lt, value_lt_iff] at hover
  have hcheck : c.exponent > 34 ∨ (c.mantissa > 0xff ∧ c.exponent > 33) ∨
      (c.mantissa > 0xffff ∧ c.exponent > 32) := by
    by_contra hpasses
    exact hover (fits_of_not_overflows hfree hpasses)
  rw [ofCompact?, if_neg (mantissa_ne_zero hm), if_neg (by simp [hs])]
  exact if_pos hcheck

/-! ## What decodes -/

/-- A code consists of its exponent, its sign and its mantissa. Without a mantissa it denotes zero,
and with a mantissa and a sign nothing. In all other cases it denotes the whole part of its value if
the value is below 2²⁵⁶, and nothing if it is not. What a code denotes is its mantissa shifted as an
unbounded number, so that no shift in 256 bits loses a bit at the top. -/
theorem decodes_exactly_values_that_fit (c : CompactTarget) :
    c.bits.toNat = c.exponent * 2 ^ 24 + c.isSigned.toNat * 2 ^ 23 + c.mantissa.toNat ∧
    (c.mantissa.toNat = 0 → ofCompact? c = some zero) ∧
    (0 < c.mantissa.toNat → c.isSigned = true → ofCompact? c = none) ∧
    (0 < c.mantissa.toNat → c.isSigned = false →
      (c.value < 2 ^ 256 → ∃ t, ofCompact? c = some t ∧ t.toNat = ⌊c.value⌋₊) ∧
      (2 ^ 256 ≤ c.value → ofCompact? c = none)) ∧
    ∀ t, ofCompact? c = some t →
      t.toNat = if c.exponent ≤ 3 then c.mantissa.toNat >>> (8 * (3 - c.exponent))
        else c.mantissa.toNat <<< (8 * (c.exponent - 3)) := by
  refine ⟨toNat_bits_eq_parts c, ofCompact?_of_no_mantissa, ofCompact?_of_negative, ?_, ?_⟩
  · intro hm hs
    exact ⟨ofCompact?_of_value_lt hs, ofCompact?_of_le_value hm hs⟩
  · intro t ht
    rw [← floor_value_eq_shift]
    rcases Nat.eq_zero_or_pos c.mantissa.toNat with hzero | hm
    · -- Both the target and the value are zero.
      obtain rfl : zero = t := Option.some.inj ((ofCompact?_of_no_mantissa hzero).symm.trans ht)
      rw [floor_value, hzero, Nat.zero_mul, Nat.zero_div]
      rfl
    · cases hs : c.isSigned with
      | true =>
        rw [ofCompact?_of_negative hm hs] at ht
        exact nomatch ht
      | false =>
        rcases lt_or_ge c.value (2 ^ 256) with hfit | hover
        · obtain ⟨u, hu, hvalue⟩ := ofCompact?_of_value_lt hs hfit
          rw [← Option.some.inj (hu.symm.trans ht), hvalue]
        · rw [ofCompact?_of_le_value hm hs hover] at ht
          exact nomatch ht

/-- With an exponent of 33 a mantissa of two bytes fits and one of three bytes does not. A sign is
refused, unless there is no mantissa, and a short exponent cuts digits off. -/
theorem room_for_two_bytes_at_exponent_thirty_three :
    (∃ t, ofCompact? ⟨0x2100ffff⟩ = some t ∧ t.toNat = 0xffff * 256 ^ 30) ∧
      ofCompact? ⟨0x21010000⟩ = none ∧ ofCompact? ⟨0x1d80ffff⟩ = none ∧
      ofCompact? ⟨0x1d800000⟩ = some zero ∧
      ∃ t, ofCompact? ⟨0x01123456⟩ = some t ∧ t.toNat = 0x12 := by
  obtain ⟨-, -, -, hpositive, -⟩ := decodes_exactly_values_that_fit ⟨0x2100ffff⟩
  obtain ⟨-, -, -, hpositive', -⟩ := decodes_exactly_values_that_fit ⟨0x21010000⟩
  obtain ⟨-, -, hnegative, -⟩ := decodes_exactly_values_that_fit ⟨0x1d80ffff⟩
  obtain ⟨-, hzero, -⟩ := decodes_exactly_values_that_fit ⟨0x1d800000⟩
  obtain ⟨-, -, -, hshort, -⟩ := decodes_exactly_values_that_fit ⟨0x01123456⟩
  refine ⟨?fits, ?tooBig, hnegative (by decide) (by decide), hzero (by decide), ?cut⟩
  case fits =>
    obtain ⟨t, ht, hvalue⟩ := (hpositive (by decide) (by decide)).1
      ((value_lt_iff _).2 (by decide +kernel))
    exact ⟨t, ht, hvalue.trans ((floor_value _).trans (by decide +kernel))⟩
  case tooBig =>
    apply (hpositive' (by decide) (by decide)).2
    rw [← not_lt, value_lt_iff]
    decide +kernel
  case cut =>
    obtain ⟨t, ht, hvalue⟩ := (hshort (by decide) (by decide)).1
      ((value_lt_iff _).2 (by decide +kernel))
    exact ⟨t, ht, hvalue.trans ((floor_value _).trans (by decide +kernel))⟩

end Target

end HeaderRules
