import HeaderRules.Proofs.CompactCodec

/-!
# What a mask keeps of a target

The mask of a declared code is 24 ones, shifted to the place that the exponent of the code names:
down below exponent three, up from there on, and partly or wholly out of the 256 bits from exponent
33 on. One description holds for all of these cases. The mask leaves the base-256 digits of a target
at the three positions below the exponent and clears the others
(`Target.mask_keeps_digits_below_exponent`).

A target stays as it is under the mask exactly if it has no digits outside of the window
(`Target.mask_eq_self_iff`). That is true of every masked target, so that masking twice is masking
once, and of the target that the code itself denotes.
-/

namespace HeaderRules

/-! ## Digits -/

/-- The base-256 digit of a number at a position. -/
def digitAt (n i : Nat) : Nat := n / 256 ^ i % 256

/-- What is left below a power of 256 has the digits below its exponent. -/
theorem digitAt_mod_pow (e n i : Nat) :
    digitAt (n % 256 ^ e) i = if i < e then digitAt n i else 0 := by
  unfold digitAt
  split_ifs with hi
  · -- The reduction is by a multiple of the power above the digit.
    have hpow : 256 ^ e = 256 ^ i * 256 ^ (e - i) := by
      rw [← pow_add, Nat.add_sub_cancel' hi.le]
    have hdvd : 256 ∣ 256 ^ (e - i) := dvd_pow_self 256 (Nat.sub_ne_zero_of_lt hi)
    rw [hpow, Nat.mod_mul_right_div_self, Nat.mod_mod_of_dvd _ hdvd]
  · have hlt : n % 256 ^ e < 256 ^ i :=
      (Nat.mod_lt n (pow_256_pos e)).trans_le (pow_256_le (Nat.le_of_not_lt hi))
    rw [Nat.div_eq_of_lt hlt]

/-- Rounding to a power of 256 keeps the digits from its exponent on. -/
theorem digitAt_round (k n i : Nat) :
    digitAt (n / 256 ^ k * 256 ^ k) i = if k ≤ i then digitAt n i else 0 := by
  unfold digitAt
  split_ifs with hi
  · have hpow : 256 ^ i = 256 ^ k * 256 ^ (i - k) := by
      rw [← pow_add, Nat.add_sub_cancel' hi]
    rw [hpow, ← Nat.div_div_eq_div_mul, Nat.mul_div_cancel _ (pow_256_pos k),
      Nat.div_div_eq_div_mul]
  · -- Shifted down to the position, a multiple of the power still ends in a zero.
    have hpow : 256 ^ k = 256 ^ (k - i - 1) * 256 * 256 ^ i := by
      rw [← pow_succ, ← pow_add]
      congr 1
      omega
    rw [hpow, ← Nat.mul_assoc, Nat.mul_div_cancel _ (pow_256_pos i), ← Nat.mul_assoc,
      Nat.mul_mod_left]

/-- A window has the three digits below its upper end, and zeros everywhere else. -/
theorem digitAt_digitWindow (e n i : Nat) :
    digitAt (digitWindow e n) i = if e - 3 ≤ i ∧ i < e then digitAt n i else 0 := by
  rw [digitWindow_eq_round, digitAt_round, digitAt_mod_pow, ite_and]

/-! ## Windows of windows -/

theorem digitWindow_lt (e n : Nat) : digitWindow e n < 256 ^ e :=
  (digitWindow_le_mod e n).trans_lt (Nat.mod_lt n (pow_256_pos e))

/-- A window is a multiple of the unit at its lower end. -/
theorem unit_dvd_digitWindow (e n : Nat) : 256 ^ (e - 3) ∣ digitWindow e n := by
  rw [digitWindow_eq_round]
  exact Nat.dvd_mul_left _ _

/-- A window is the number it is cut from exactly if there is nothing above or below it. -/
theorem digitWindow_eq_self_iff (e n : Nat) :
    digitWindow e n = n ↔ n < 256 ^ e ∧ 256 ^ (e - 3) ∣ n := by
  constructor
  · intro hself
    exact hself ▸ ⟨digitWindow_lt e n, unit_dvd_digitWindow e n⟩
  · rintro ⟨hlt, hdvd⟩
    rw [digitWindow_eq_round, Nat.mod_eq_of_lt hlt, Nat.div_mul_cancel hdvd]

theorem digitWindow_digitWindow (e n : Nat) :
    digitWindow e (digitWindow e n) = digitWindow e n :=
  (digitWindow_eq_self_iff e _).2 ⟨digitWindow_lt e n, unit_dvd_digitWindow e n⟩

/-! ## Masked targets -/

namespace Target

variable {c : CompactTarget} {t : Target}

/-- A mask leaves a target as it is exactly if the target stays below the exponent of the code and
is a multiple of its unit. -/
theorem mask_eq_self_iff :
    t.maskToPrecisionOf c = t ↔ t.toNat < 256 ^ c.exponent ∧ 256 ^ (c.exponent - 3) ∣ t.toNat := by
  rw [← toNat_inj, toNat_maskToPrecisionOf, digitWindow_eq_self_iff]

theorem mask_mask (t : Target) (c : CompactTarget) :
    (t.maskToPrecisionOf c).maskToPrecisionOf c = t.maskToPrecisionOf c := by
  rw [← toNat_inj, toNat_maskToPrecisionOf, toNat_maskToPrecisionOf, digitWindow_digitWindow]

/-- A code denotes a target that its own mask leaves as it is. -/
theorem mask_eq_self_of_ofCompact? (h : ofCompact? c = some t) : t.maskToPrecisionOf c = t := by
  rw [mask_eq_self_iff]
  -- Codes of any exponent denote zero, also those whose sign is set.
  rcases Nat.eq_zero_or_pos t.toNat with hzero | hpos
  · rw [hzero]
    exact ⟨pow_256_pos _, Nat.dvd_zero _⟩
  · obtain ⟨hdvd, hsize⟩ := unit_dvd_of_ofCompact? h hpos
    exact ⟨by omega, hdvd⟩

/-- Without an exponent there is no position below it, and from exponent 35 on all three positions
are past the end of a target. -/
theorem mask_eq_zero (t : Target) (h : c.exponent = 0 ∨ 35 ≤ c.exponent) :
    t.maskToPrecisionOf c = zero := by
  have hnone : ¬0 < digitWindow c.exponent t.toNat := by
    rw [digitWindow_pos_iff, Nat.not_le]
    rcases h with hzero | hlarge
    · rw [hzero, pow_zero, Nat.mod_one]
      exact Nat.one_pos
    · calc t.toNat % 256 ^ c.exponent ≤ t.toNat := Nat.mod_le _ _
        _ < 256 ^ 32 := t.toNat_lt
        _ ≤ 256 ^ (c.exponent - 3) := pow_256_le (by omega)
  rw [← toNat_inj, toNat_maskToPrecisionOf, Nat.eq_zero_of_not_pos hnone]
  rfl

/-- The mask of a code with exponent `e` takes a target `t` to `t mod 256 ^ e` less
`t mod 256 ^ (e - 3)`, where a negative exponent counts as zero. These are the digits of `t` from
position `e - 3` up to position `e - 1` at their own places, and none for `e = 0` and from `e = 35`
on. So a mask makes no target greater, it changes nothing when it is applied again, and it leaves
the target as it is that the code itself denotes. -/
theorem mask_keeps_digits_below_exponent (t : Target) (c : CompactTarget) :
    ((t.maskToPrecisionOf c).toNat : Int) =
        (t.toNat % 256 ^ c.exponent : Nat) - (t.toNat % 256 ^ (c.exponent - 3) : Nat) ∧
      (∀ i, digitAt (t.maskToPrecisionOf c).toNat i =
        if c.exponent - 3 ≤ i ∧ i < c.exponent then digitAt t.toNat i else 0) ∧
      (c.exponent = 0 ∨ 35 ≤ c.exponent → t.maskToPrecisionOf c = zero) ∧
      t.maskToPrecisionOf c ≤ t ∧
      (t.maskToPrecisionOf c).maskToPrecisionOf c = t.maskToPrecisionOf c ∧
      ∀ u, ofCompact? c = some u → u.maskToPrecisionOf c = u := by
  refine ⟨?difference, fun i => ?digits, t.mask_eq_zero, t.mask_le c, t.mask_mask c,
    fun u hu => mask_eq_self_of_ofCompact? hu⟩
  case difference =>
    -- The difference of the two remainders is not cut off at zero.
    have hbelow : t.toNat % 256 ^ (c.exponent - 3) ≤ t.toNat % 256 ^ c.exponent := by
      rw [← Nat.mod_mod_of_dvd t.toNat (pow_dvd_pow 256 (Nat.sub_le c.exponent 3))]
      exact Nat.mod_le _ _
    rw [toNat_maskToPrecisionOf, digitWindow, Nat.cast_sub hbelow]
  case digits => rw [toNat_maskToPrecisionOf, digitAt_digitWindow]

/-- The mask of exponent 33 is cut off at the end of a target and keeps two digits of the greatest
one, which are the target that the code `0x2100ffff` denotes. The mask of exponent 35 is past that
end. -/
theorem mask_cut_at_upper_end :
    (greatest.maskToPrecisionOf ⟨0x2100ffff⟩).toNat = 0xffff * 256 ^ 30 ∧
      greatest.maskToPrecisionOf ⟨0x2300ffff⟩ = zero ∧
      (ofNat (0xffff * 256 ^ 30)).maskToPrecisionOf ⟨0x2100ffff⟩ = ofNat (0xffff * 256 ^ 30) := by
  obtain ⟨hdifference, -, -, -, -, hdecoded⟩ :=
    mask_keeps_digits_below_exponent greatest ⟨0x2100ffff⟩
  obtain ⟨-, -, hnone, -⟩ := mask_keeps_digits_below_exponent greatest ⟨0x2300ffff⟩
  refine ⟨Int.natCast_inj.1 (hdifference.trans ?value), hnone (.inr (by decide)),
    hdecoded _ (by decide +kernel)⟩
  case value => decide +kernel

end Target

end HeaderRules
