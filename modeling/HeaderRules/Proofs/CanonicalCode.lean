import HeaderRules.Proofs.CodePrecision

/-!
# Canonical codes

Many codes denote the same target, and the encoder writes one of them. These *canonical* codes have
no sign and a mantissa of sixteen bits or more, so that no shorter size would do, and where the size
is below three they have nothing in the digits that decoding cuts off
(`decoded_then_encoded_iff_canonical`). Since a greater target has no shorter code, canonical codes
stand in the order of their targets (`code_order_is_target_order`).
-/

namespace HeaderRules

namespace CompactTarget

variable {c d : CompactTarget}

/-! ## The shape of a canonical code -/

/-- The code is zero, or it has no sign, a mantissa that needs its size, a value that fits into 256
bits, and no digits below the point. -/
def IsCanonical (c : CompactTarget) : Prop :=
  c.bits = 0 ∨ (c.isSigned = false ∧ 0x8000 ≤ c.mantissa.toNat ∧
    c.mantissa.toNat * 256 ^ (c.exponent - 3) < 2 ^ 256 ∧
    (c.exponent < 3 → 256 ^ (3 - c.exponent) ∣ c.mantissa.toNat))

instance (c : CompactTarget) : Decidable c.IsCanonical :=
  inferInstanceAs (Decidable (_ ∨ (_ ∧ _ ∧ _ ∧ (_ → _))))

/-- The value of a field fits into 256 bits if it does with three digits more. -/
theorem fits_iff {e f : Nat} (hf : f < 2 ^ 23) :
    f * 256 ^ (e - 3) < 2 ^ 256 ↔ f * 256 ^ e < 256 ^ 35 := by
  by_cases he : e ≤ 3
  · have hsmall : f * 256 ^ e < 256 ^ 35 := by
      have hpow : 256 ^ e ≤ 256 ^ 3 := pow_256_le he
      calc f * 256 ^ e ≤ f * 256 ^ 3 := Nat.mul_le_mul_left _ hpow
        _ < 256 ^ 35 := by omega
    rw [Nat.sub_eq_zero_of_le he, pow_zero, Nat.mul_one]
    exact iff_of_true (hf.trans (by decide)) hsmall
  · rw [pow_256_of_three_le (Nat.le_of_not_le he), ← Nat.mul_assoc]
    omega

/-- A field has no digits below the point if three digits can be taken off its value. -/
theorem whole_iff {e f : Nat} :
    (e < 3 → 256 ^ (3 - e) ∣ f) ↔ 256 ^ 3 ∣ f * 256 ^ e := by
  by_cases he : e < 3
  · rw [pow_256_three_of_le he.le, Nat.mul_dvd_mul_iff_right (pow_256_pos e)]
    exact forall_prop_of_true he
  · refine iff_of_true (fun hlt => absurd hlt he) ?_
    exact Dvd.dvd.mul_left (pow_dvd_pow 256 (Nat.le_of_not_lt he)) f

/-- The parts of a canonical code as conditions on its field. -/
theorem isCanonical_iff : c.IsCanonical ↔
    c.bits = 0 ∨ (c.field < 2 ^ 23 ∧ 0x8000 ≤ c.field ∧ c.field * 256 ^ c.exponent < 256 ^ 35 ∧
      256 ^ 3 ∣ c.field * 256 ^ c.exponent) := by
  rw [IsCanonical, isSigned_eq_false_iff]
  refine or_congr_right (and_congr_right fun hsign => ?_)
  rw [toNat_mantissa_of_no_sign hsign, fits_iff hsign, whole_iff]

/-! ## Codes as numbers -/

/-- Codes are ordered by their exponents, and codes of one exponent by their fields. -/
theorem le_iff : c ≤ d ↔
    c.exponent < d.exponent ∨ (c.exponent = d.exponent ∧ c.field ≤ d.field) := by
  have hc := c.field_lt
  have hd := d.field_lt
  rw [show c ≤ d ↔ c.bits.toNat ≤ d.bits.toNat from UInt32.le_iff_toNat_le, toNat_bits_eq,
    toNat_bits_eq]
  omega

end CompactTarget

namespace Target

variable {s t : Target} {c : CompactTarget}

/-! ## The codes that the encoder writes -/

/-- A code whose field needs its size is the code of the target that it denotes without loss. -/
theorem toCompact_eq_of_value (hsign : c.field < 2 ^ 23) (hlead : 0x8000 ≤ c.field)
    (hvalue : t.toNat * 256 ^ 3 = c.field * 256 ^ c.exponent) : t.toCompact = c := by
  have hpow : 0 < 256 ^ c.exponent := pow_256_pos _
  have hhigh : c.field * 256 ^ c.exponent < 2 ^ 23 * 256 ^ c.exponent :=
    Nat.mul_lt_mul_of_pos_right hsign hpow
  have hlow : 0x8000 * 256 ^ c.exponent ≤ c.field * 256 ^ c.exponent :=
    Nat.mul_le_mul_right _ hlead
  have hsize : IsCodeSize c.exponent t.toNat := by
    refine ⟨by omega, fun k hk => ?_⟩
    have hbelow : 256 ^ (k + 1) ≤ 256 ^ c.exponent := pow_256_le hk
    rw [pow_succ] at hbelow
    omega
  have hexp : t.toCompact.exponent = c.exponent := (t.exponent_toCompact_eq_iff _).2 hsize
  refine CompactTarget.ext hexp ?_
  rw [field_toCompact, hexp, hvalue, Nat.mul_div_cancel _ hpow]

theorem isCanonical_toCompact (t : Target) : t.toCompact.IsCanonical := by
  rw [CompactTarget.isCanonical_iff]
  rcases Nat.eq_zero_or_pos t.toNat with hzero | hpos
  · left
    rw [toCompact, if_pos ((isZero_iff t).2 hzero)]
  · refine .inr ⟨t.field_toCompact_lt, le_field_toCompact hpos, t.field_toCompact_fits, ?_⟩
    -- Up to size three no digit of the target is below the point.
    by_cases he : t.toCompact.exponent ≤ 3
    · have hdvd : 256 ^ t.toCompact.exponent ∣ t.toNat * 256 ^ 3 :=
        Dvd.dvd.mul_left (pow_dvd_pow 256 he) _
      rw [field_toCompact, Nat.div_mul_cancel hdvd]
      exact Nat.dvd_mul_left _ _
    · exact Dvd.dvd.mul_left (pow_dvd_pow 256 (Nat.le_of_not_le he)) _

theorem exists_decoded_of_isCanonical (hc : c.IsCanonical) :
    ∃ u, ofCompact? c = some u ∧ u.toCompact = c := by
  rcases CompactTarget.isCanonical_iff.1 hc with hzero | ⟨hsign, hlead, hfit, hwhole⟩
  · obtain rfl : c = ⟨0⟩ := congrArg CompactTarget.mk hzero
    exact ⟨zero, rfl, rfl⟩
  · obtain ⟨u, hu, hvalue⟩ := ofCompact?_of_fits hsign hfit
    refine ⟨u, hu, toCompact_eq_of_value hsign hlead ?_⟩
    rw [hvalue, Nat.div_mul_cancel hwhole]

/-- A code comes back from decoding and encoding exactly if it is canonical, and the encoder writes
no other codes. -/
theorem decoded_then_encoded_iff_canonical :
    (∀ c : CompactTarget, (∃ t, ofCompact? c = some t ∧ t.toCompact = c) ↔ c.IsCanonical) ∧
      ∀ t : Target, t.toCompact.IsCanonical := by
  refine ⟨fun c => ⟨?_, exists_decoded_of_isCanonical⟩, isCanonical_toCompact⟩
  rintro ⟨t, -, rfl⟩
  exact t.isCanonical_toCompact

/-- Two codes of the target 1, the longer of which is not canonical. -/
example : ofCompact? ⟨0x01010000⟩ = ofCompact? ⟨0x02000100⟩ ∧
    CompactTarget.IsCanonical ⟨0x01010000⟩ ∧ ¬CompactTarget.IsCanonical ⟨0x02000100⟩ := by
  decide +kernel

/-! ## The order of codes -/

theorem toCompact_mono (h : s ≤ t) : s.toCompact ≤ t.toCompact := by
  rw [CompactTarget.le_iff]
  rcases Nat.lt_or_eq_of_le (exponent_toCompact_mono h) with hshorter | hsame
  · exact .inl hshorter
  · refine .inr ⟨hsame, ?_⟩
    rw [field_toCompact, field_toCompact, hsame]
    exact Nat.div_le_div_right (Nat.mul_le_mul_right _ h)

/-- Targets with the same code leave the same behind. -/
theorem roundDown_eq_iff : s.roundDown = t.roundDown ↔ s.toCompact = t.toCompact := by
  constructor
  · intro hsame
    rw [← s.toCompact_roundDown, hsame, t.toCompact_roundDown]
  · intro hsame
    have hs : ofCompact? s.toCompact = some s.roundDown := s.ofCompact?_toCompact
    have ht : ofCompact? t.toCompact = some t.roundDown := t.ofCompact?_toCompact
    exact Option.some.inj (hs.symm.trans (hsame ▸ ht))

/-- Codes stand in the order of the targets that they denote. -/
theorem toCompact_lt_iff : s.toCompact < t.toCompact ↔ s.roundDown < t.roundDown := by
  constructor
  · intro hlt
    by_contra hnot
    have hback := toCompact_mono (Nat.le_of_not_lt hnot)
    rw [toCompact_roundDown, toCompact_roundDown] at hback
    exact UInt32.not_le.2 hlt hback
  · intro hlt
    have hle := toCompact_mono (Nat.le_of_lt hlt)
    rw [toCompact_roundDown, toCompact_roundDown] at hle
    refine UInt32.lt_of_le_of_ne hle fun hbits => ?_
    have hsame := roundDown_eq_iff.2 (congrArg CompactTarget.mk hbits)
    rw [hsame] at hlt
    exact Nat.lt_irrefl _ hlt

theorem compare_toCompact (s t : Target) :
    compare s.toCompact t.toCompact = compare s.roundDown t.roundDown := by
  have heq : s.toCompact.bits = t.toCompact.bits ↔ s.roundDown.toNat = t.roundDown.toNat := by
    rw [toNat_inj, roundDown_eq_iff]
    exact ⟨congrArg CompactTarget.mk, congrArg CompactTarget.bits⟩
  exact if_congr toCompact_lt_iff rfl (if_congr heq rfl rfl)

/-- As a number the code of a target grows with the target. So of any two codes that the encoder
writes, the smaller one denotes the smaller target, and comparing the codes is comparing what they
denote. -/
theorem code_order_is_target_order :
    (∀ s t : Target, s ≤ t → s.toCompact.bits ≤ t.toCompact.bits) ∧
      ∀ c d : CompactTarget, (∃ s : Target, s.toCompact = c) → (∃ t : Target, t.toCompact = d) →
        ∃ s t, ofCompact? c = some s ∧ ofCompact? d = some t ∧
          (c.bits < d.bits ↔ s < t) ∧ compare c d = compare s t := by
  refine ⟨fun s t h => toCompact_mono h, ?_⟩
  rintro _ _ ⟨s, rfl⟩ ⟨t, rfl⟩
  exact ⟨s.roundDown, t.roundDown, s.ofCompact?_toCompact, t.ofCompact?_toCompact,
    toCompact_lt_iff, compare_toCompact s t⟩

/-- From `0x7fffff` to the next target the mantissa falls, and the code rises with the size. -/
theorem code_rises_where_mantissa_falls :
    (Target.ofNat 0x7fffff).toCompact.bits ≤ (Target.ofNat 0x800000).toCompact.bits ∧
      ∃ s t, ofCompact? ⟨0x037fffff⟩ = some s ∧ ofCompact? ⟨0x04008000⟩ = some t ∧ s < t := by
  obtain ⟨hmono, horder⟩ := code_order_is_target_order
  refine ⟨hmono _ _ (by decide +kernel), ?_⟩
  obtain ⟨s, t, hs, ht, hlt, -⟩ := horder ⟨0x037fffff⟩ ⟨0x04008000⟩
    ⟨.ofNat 0x7fffff, by decide +kernel⟩ ⟨.ofNat 0x800000, by decide +kernel⟩
  exact ⟨s, t, hs, ht, hlt.1 (by decide)⟩

end Target

end HeaderRules
