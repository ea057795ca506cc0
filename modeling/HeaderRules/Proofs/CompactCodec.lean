import HeaderRules.Proofs.CompactWindow

/-!
# Encoding and decoding targets

The code of a target is fixed by two facts: its exponent is the least size in bytes that leaves the
sign bit free (`exponent_toCompact_le_iff`), and its field holds the three digits below that
exponent (`field_toCompact`). So decoding the code of a target gives the target back, reduced to
the precision of that code (`ofCompact?_toCompact`), and encoding the result gives the same code
again (`toCompact_mask_toCompact`).
-/

namespace HeaderRules.Target

/-! ## The encoder -/

theorem toNat_lt (t : Target) : t.toNat < 256 ^ 32 := t.value.isLt

theorem byteLength_le_iff (t : Target) (size : Nat) :
    t.byteLength ≤ size ↔ t.toNat < 256 ^ size := by
  rw [byteLength]
  split_ifs with h
  · simp [h]
  · rw [pow_256_eq_two_pow, ← Nat.log2_lt h]
    omega

/-- The leading bytes are the number with three digits kept above the point. -/
theorem toNat_leadingBytes {t : Target} {size : Nat} (hsize : t.toNat < 256 ^ size) :
    (t.leadingBytes size).toNat = t.toNat * 256 ^ 3 / 256 ^ size := by
  rw [leadingBytes]
  -- A short target is shifted up and a long one down, with the same three digits above the point.
  split_ifs with hs
  · have hscale : 256 ^ 3 = 256 ^ (3 - size) * 256 ^ size := pow_256_three_of_le hs
    have hfit : t.toNat * 256 ^ (3 - size) < 256 ^ 3 := by
      rw [hscale, Nat.mul_comm]
      exact Nat.mul_lt_mul_of_pos_left hsize (pow_256_pos (3 - size))
    have ht : t.toNat < 2 ^ 32 :=
      hsize.trans_le ((pow_256_le hs).trans (by decide))
    rw [UInt32.toNat_shiftLeft, UInt32.toNat_ofNat_of_lt' ht,
      UInt32.toNat_ofNat_of_lt' (show 8 * (3 - size) < 2 ^ 32 by omega),
      Nat.mod_eq_of_lt (show 8 * (3 - size) < 32 by omega), Nat.shiftLeft_eq, ← pow_256_eq_two_pow,
      Nat.mod_eq_of_lt (hfit.trans (by decide)), hscale, ← Nat.mul_assoc,
      Nat.mul_div_cancel _ (pow_256_pos size)]
  · have hscale : 256 ^ size = 256 ^ (size - 3) * 256 ^ 3 := pow_256_of_three_le (by omega)
    have hfit : t.toNat / 256 ^ (size - 3) < 256 ^ 3 := by
      rwa [Nat.div_lt_iff_lt_mul (pow_256_pos (size - 3)), Nat.mul_comm, ← hscale]
    have hshift : (t.value >>> (8 * (size - 3))).toNat = t.toNat / 256 ^ (size - 3) := by
      rw [BitVec.toNat_ushiftRight, Nat.shiftRight_eq_div_pow, ← pow_256_eq_two_pow, toNat]
    rw [UInt32.toNat_and, hshift, UInt32.toNat_ofNat_of_lt' (hfit.trans (by decide)), hscale,
      Nat.mul_div_mul_right _ _ (pow_256_pos 3)]
    exact (Nat.and_two_pow_sub_one_eq_mod _ 24).trans (Nat.mod_eq_of_lt hfit)

/-- The parts of a code: an exponent below 256 and a field below 2²⁴ do not overlap. -/
theorem toNat_exponent_or_field {size : Nat} {field : UInt32} (hsize : size < 256)
    (hfield : field.toNat < 2 ^ 24) :
    ((UInt32.ofNat size <<< 24) ||| field).toNat = size * 2 ^ 24 + field.toNat := by
  have hshift : (UInt32.ofNat size <<< 24).toNat = size <<< 24 := by
    rw [UInt32.toNat_shiftLeft, UInt32.toNat_ofNat_of_lt' (hsize.trans (by decide))]
    apply Nat.mod_eq_of_lt
    show size <<< 24 < 2 ^ 32
    rw [Nat.shiftLeft_eq]
    omega
  rw [UInt32.toNat_or, hshift, ← Nat.shiftLeft_add_eq_or_of_lt hfield, Nat.shiftLeft_eq]

theorem isZero_iff (t : Target) : t.isZero = true ↔ t.toNat = 0 := by
  rw [isZero, beq_iff_eq, ← BitVec.toNat_inj]
  rfl

theorem lt_pow_byteLength (t : Target) : t.toNat < 256 ^ t.byteLength :=
  (t.byteLength_le_iff _).1 le_rfl

theorem byteLength_le (t : Target) : t.byteLength ≤ 32 := (t.byteLength_le_iff 32).2 t.toNat_lt

theorem toNat_lead_lt (t : Target) : (t.leadingBytes t.byteLength).toNat < 2 ^ 24 := by
  rw [toNat_leadingBytes t.lt_pow_byteLength, Nat.div_lt_iff_lt_mul (pow_256_pos t.byteLength)]
  have := t.lt_pow_byteLength
  omega

/-- The first byte of a target reaches the sign bit where twice the target is one byte longer. -/
theorem lead_reaches_sign_iff (t : Target) :
    (t.leadingBytes t.byteLength &&& 0x00800000 != 0) = true ↔
      256 ^ t.byteLength ≤ 2 * t.toNat := by
  have hsign := CompactTarget.isSigned_iff ⟨t.leadingBytes t.byteLength⟩
  rw [CompactTarget.field, Nat.mod_eq_of_lt t.toNat_lead_lt,
    toNat_leadingBytes t.lt_pow_byteLength, Nat.le_div_iff_mul_le (pow_256_pos t.byteLength)]
    at hsign
  refine hsign.trans ?_
  omega

/-- Where the first byte reaches the sign bit, the code has one more byte of size and one digit
less. -/
theorem toCompact_parts_of_sign {t : Target} (h : 256 ^ t.byteLength ≤ 2 * t.toNat) :
    t.toCompact.exponent = t.byteLength + 1 ∧
      t.toCompact.field = t.toNat * 256 ^ 3 / 256 ^ (t.byteLength + 1) := by
  have hzero : ¬t.isZero = true := by
    have := pow_256_pos t.byteLength
    rw [isZero_iff]
    omega
  set lead := t.leadingBytes t.byteLength with hlead
  have hbound : lead.toNat < 2 ^ 24 := t.toNat_lead_lt
  have hcode : t.toCompact = ⟨(UInt32.ofNat (t.byteLength + 1) <<< 24) ||| (lead >>> 8)⟩ := by
    rw [toCompact, if_neg hzero, if_pos (t.lead_reaches_sign_iff.2 h)]
  have hshift : (lead >>> 8).toNat = lead.toNat / 256 := by
    rw [UInt32.toNat_shiftRight, Nat.shiftRight_eq_div_pow]
    rfl
  have hbits : t.toCompact.bits.toNat = (t.byteLength + 1) * 2 ^ 24 + lead.toNat / 256 := by
    have := t.byteLength_le
    rw [hcode, ← hshift]
    exact toNat_exponent_or_field (by omega) (by omega)
  obtain ⟨hexp, hfield⟩ := CompactTarget.exponent_and_field_of_bits (by omega) hbits
  refine ⟨hexp, ?_⟩
  rw [hfield, hlead, toNat_leadingBytes t.lt_pow_byteLength, Nat.div_div_eq_div_mul, ← pow_succ]

/-- Where the first byte leaves the sign bit free, the code has the size of the target and its
three leading bytes. -/
theorem toCompact_parts_of_no_sign {t : Target} (h : 2 * t.toNat < 256 ^ t.byteLength) :
    t.toCompact.exponent = t.byteLength ∧
      t.toCompact.field = t.toNat * 256 ^ 3 / 256 ^ t.byteLength := by
  by_cases hzero : t.isZero = true
  · have hcode : t.toCompact = ⟨0⟩ := if_pos hzero
    have hn : t.toNat = 0 := (isZero_iff t).1 hzero
    rw [hcode, byteLength, if_pos hn, hn]
    exact ⟨rfl, rfl⟩
  have hsign := mt t.lead_reaches_sign_iff.1 (Nat.not_le_of_lt h)
  have hcode : t.toCompact =
      ⟨(UInt32.ofNat t.byteLength <<< 24) ||| t.leadingBytes t.byteLength⟩ := by
    rw [toCompact, if_neg hzero, if_neg hsign]
  have hbits : t.toCompact.bits.toNat
      = t.byteLength * 2 ^ 24 + (t.leadingBytes t.byteLength).toNat := by
    have := t.byteLength_le
    rw [hcode]
    exact toNat_exponent_or_field (by omega) t.toNat_lead_lt
  rw [← toNat_leadingBytes t.lt_pow_byteLength]
  exact CompactTarget.exponent_and_field_of_bits t.toNat_lead_lt hbits

/-- The exponent of the code of a target is the least size in bytes that leaves the sign bit
free. -/
theorem exponent_toCompact_le_iff (t : Target) (k : Nat) :
    t.toCompact.exponent ≤ k ↔ 2 * t.toNat < 256 ^ k := by
  have hfit := t.lt_pow_byteLength
  rcases Nat.lt_or_ge (2 * t.toNat) (256 ^ t.byteLength) with h | h
  · rw [(toCompact_parts_of_no_sign h).1]
    refine ⟨fun hk => h.trans_le (pow_256_le hk), fun hk => ?_⟩
    rw [byteLength_le_iff]
    omega
  · -- The size of the target does not leave the sign bit free, and the next one always does.
    rw [(toCompact_parts_of_sign h).1]
    refine ⟨fun hk => ?_, fun hk => lt_of_pow_256_lt (h.trans_lt hk)⟩
    have hmono : 256 ^ (t.byteLength + 1) ≤ 256 ^ k := pow_256_le hk
    rw [pow_succ] at hmono
    omega

/-- The field of the code of a target is the target with three digits kept above its size. -/
theorem field_toCompact (t : Target) :
    t.toCompact.field = t.toNat * 256 ^ 3 / 256 ^ t.toCompact.exponent := by
  rcases Nat.lt_or_ge (2 * t.toNat) (256 ^ t.byteLength) with h | h
  · rw [(toCompact_parts_of_no_sign h).1, (toCompact_parts_of_no_sign h).2]
  · rw [(toCompact_parts_of_sign h).1, (toCompact_parts_of_sign h).2]

/-- The code of a target has no sign. -/
theorem field_toCompact_lt (t : Target) : t.toCompact.field < 2 ^ 23 := by
  have hhigh : 2 * t.toNat < 256 ^ t.toCompact.exponent :=
    (t.exponent_toCompact_le_iff _).1 le_rfl
  rw [field_toCompact, Nat.div_lt_iff_lt_mul (pow_256_pos _)]
  omega

/-- The value of the code of a target fits into 256 bits. -/
theorem field_toCompact_fits (t : Target) :
    t.toCompact.field * 256 ^ t.toCompact.exponent < 256 ^ 35 := by
  have := t.toNat_lt
  rw [field_toCompact]
  exact (Nat.div_mul_le_self _ _).trans_lt (by omega)

theorem exponent_toCompact_eq_iff (t : Target) (e : Nat) :
    t.toCompact.exponent = e ↔ IsCodeSize e t.toNat := by
  constructor
  · rintro rfl
    refine ⟨(t.exponent_toCompact_le_iff _).1 le_rfl, fun k hk => ?_⟩
    exact Nat.le_of_not_lt fun h => Nat.not_le_of_lt hk ((t.exponent_toCompact_le_iff k).2 h)
  · rintro ⟨hhigh, hlow⟩
    refine le_antisymm ((t.exponent_toCompact_le_iff e).2 hhigh) (Nat.le_of_not_lt fun h => ?_)
    exact Nat.not_lt_of_le (hlow _ h) ((t.exponent_toCompact_le_iff _).1 le_rfl)

/-- The field of the code of a positive target takes up sixteen bits or more. -/
theorem le_field_toCompact {t : Target} (ht : 0 < t.toNat) : 0x8000 ≤ t.toCompact.field := by
  obtain ⟨hfit, hleast⟩ := (t.exponent_toCompact_eq_iff _).1 rfl
  obtain ⟨k, hk⟩ : ∃ k, t.toCompact.exponent = k + 1 := by
    refine Nat.exists_eq_succ_of_ne_zero fun hzero => ?_
    rw [hzero] at hfit
    omega
  have hbelow := hleast k (by omega)
  rw [field_toCompact, Nat.le_div_iff_mul_le (pow_256_pos _), hk, pow_succ]
  omega

/-- Only zero has a code without a field. -/
theorem field_toCompact_eq_zero_iff (t : Target) : t.toCompact.field = 0 ↔ t.toNat = 0 := by
  constructor
  · intro hzero
    by_contra hne
    have hlead := le_field_toCompact (Nat.pos_of_ne_zero hne)
    omega
  · intro hzero
    rw [field_toCompact, hzero, Nat.zero_mul, Nat.zero_div]

/-- The code of a window is the code of the digits below its upper end, if these have its size. -/
theorem toCompact_eq_of_window {u v : Target} {e n : Nat} (hu : u.toNat = digitWindow e n)
    (hv : v.toNat = n % 256 ^ e) (hsize : IsCodeSize e v.toNat) : u.toCompact = v.toCompact := by
  have hvExp : v.toCompact.exponent = e := (v.exponent_toCompact_eq_iff e).2 hsize
  have huExp : u.toCompact.exponent = e := by
    rw [exponent_toCompact_eq_iff, hu, isCodeSize_digitWindow_iff, ← hv]
    exact hsize
  refine CompactTarget.ext (huExp.trans hvExp.symm) ?_
  rw [field_toCompact, field_toCompact, huExp, hvExp, hu, hv, digitWindow_scaled]

/-! ## The decoder -/

/-- The range check of the decoder lets through the values below 2²⁵⁶. -/
theorem not_overflows_of_fits {e m : Nat} (hm : 0 < m) (hfit : m * 256 ^ e < 256 ^ 35) :
    ¬(e > 34 ∨ (m > 0xff ∧ e > 33) ∨ (m > 0xffff ∧ e > 32)) := by
  -- With an exponent of at least `d` the mantissa has only the room that `d` leaves.
  have hlarge {d k : Nat} (hd : d ≤ e) (hk : 256 ^ 35 ≤ k * 256 ^ d) : m < k := by
    by_contra hmk
    have : k * 256 ^ d ≤ m * 256 ^ e :=
      Nat.mul_le_mul (Nat.le_of_not_lt hmk) (pow_256_le hd)
    omega
  rintro (he | ⟨hm, he⟩ | ⟨hm, he⟩)
  · have := hlarge (k := 1) he (by decide)
    omega
  · have := hlarge (k := 256) he (by decide)
    omega
  · have := hlarge (k := 65536) he (by decide)
    omega

/-- A code without sign whose value fits into 256 bits denotes its field with three digits taken
off below its size. -/
theorem ofCompact?_of_fits {c : CompactTarget} (hsign : c.field < 2 ^ 23)
    (hfit : c.field * 256 ^ c.exponent < 256 ^ 35) :
    ∃ u, ofCompact? c = some u ∧ u.toNat = c.field * 256 ^ c.exponent / 256 ^ 3 := by
  have hm : c.mantissa.toNat = c.field := CompactTarget.toNat_mantissa_of_no_sign hsign
  rcases Nat.eq_zero_or_pos c.field with hzero | hpos
  · refine ⟨zero, ?_, by rw [hzero]; simp [zero, toNat]⟩
    have : c.mantissa = 0 := by rw [← UInt32.toNat_inj, hm, hzero]; rfl
    rw [ofCompact?, if_pos this]
  have hmantissa : c.mantissa ≠ 0 := by
    rw [ne_eq, ← UInt32.toNat_inj, hm]
    exact hpos.ne'
  have hsigned : ¬c.isSigned = true := by
    rw [CompactTarget.isSigned_iff]
    exact Nat.not_le_of_lt hsign
  have hover := not_overflows_of_fits hpos hfit
  rw [← hm] at hover
  refine ⟨_, by rw [ofCompact?, if_neg hmantissa, if_neg hsigned]; exact if_neg hover, ?_⟩
  have hbase : (BitVec.ofNat 256 c.mantissa.toNat).toNat = c.field := by
    rw [hm, BitVec.toNat_ofNat, Nat.mod_eq_of_lt (hsign.trans (by decide))]
  rw [toNat]
  split_ifs with he
  · rw [BitVec.toNat_ushiftRight, hbase, Nat.shiftRight_eq_div_pow, ← pow_256_eq_two_pow,
      pow_256_three_of_le he, Nat.mul_div_mul_right _ _ (pow_256_pos c.exponent)]
  · rw [pow_256_of_three_le (Nat.le_of_not_le he), ← Nat.mul_assoc] at hfit ⊢
    rw [BitVec.toNat_shiftLeft, hbase, Nat.shiftLeft_eq, ← pow_256_eq_two_pow,
      Nat.mul_div_cancel _ (pow_256_pos 3)]
    exact Nat.mod_eq_of_lt (by omega)

/-- What the range check of the decoder lets through fits. -/
theorem fits_of_not_overflows {e m : Nat} (hm : m < 2 ^ 23)
    (h : ¬(e > 34 ∨ (m > 0xff ∧ e > 33) ∨ (m > 0xffff ∧ e > 32))) : m * 256 ^ e < 256 ^ 35 := by
  have hfit {k : Nat} (hk : m < 256 ^ k) (he : k + e ≤ 35) : m * 256 ^ e < 256 ^ 35 := by
    have hmul : m * 256 ^ e < 256 ^ k * 256 ^ e :=
      Nat.mul_lt_mul_of_pos_right hk (pow_256_pos e)
    rw [← pow_add] at hmul
    exact hmul.trans_le (pow_256_le he)
  rcases Nat.lt_or_ge 0xff m with hbyte | hbyte
  · rcases Nat.lt_or_ge 0xffff m with hword | hword
    · exact hfit (k := 3) (by omega) (by omega)
    · exact hfit (k := 2) (by omega) (by omega)
  · exact hfit (k := 1) (by omega) (by omega)

/-- A code that denotes a positive target has no sign and the value that the target is. -/
theorem field_of_ofCompact? {c : CompactTarget} {u : Target} (h : ofCompact? c = some u)
    (hpos : 0 < u.toNat) :
    c.field < 2 ^ 23 ∧ u.toNat = c.field * 256 ^ c.exponent / 256 ^ 3 := by
  -- The decoder has three ways to end early: with zero, with a sign, and out of range.
  have hmantissa : c.mantissa ≠ 0 := by
    intro hzero
    rw [ofCompact?, if_pos hzero] at h
    rw [← Option.some.inj h] at hpos
    exact absurd hpos (Nat.lt_irrefl 0)
  have hsigned : ¬c.isSigned = true := by
    intro hsigned
    rw [ofCompact?, if_neg hmantissa, if_pos hsigned] at h
    exact nomatch h
  have hover : ¬(c.exponent > 34 ∨ (c.mantissa > 0xff ∧ c.exponent > 33) ∨
      (c.mantissa > 0xffff ∧ c.exponent > 32)) := by
    intro hover
    rw [ofCompact?, if_neg hmantissa, if_neg hsigned] at h
    rw [if_pos hover] at h
    exact nomatch h
  have hsign : c.field < 2 ^ 23 := by
    rw [CompactTarget.isSigned_iff] at hsigned
    omega
  have hm : c.mantissa.toNat = c.field := CompactTarget.toNat_mantissa_of_no_sign hsign
  have hfit : c.field * 256 ^ c.exponent < 256 ^ 35 := by
    rw [← hm] at hsign ⊢
    exact fits_of_not_overflows hsign hover
  obtain ⟨v, hv, hval⟩ := ofCompact?_of_fits hsign hfit
  obtain rfl : v = u := Option.some.inj (hv.symm.trans h)
  exact ⟨hsign, hval⟩

/-- The value of a code is a multiple of the unit of its exponent, and leaves the sign bit of that
size free. -/
theorem unit_dvd_of_ofCompact? {c : CompactTarget} {u : Target} (h : ofCompact? c = some u)
    (hpos : 0 < u.toNat) :
    256 ^ (c.exponent - 3) ∣ u.toNat ∧ 2 * u.toNat < 256 ^ c.exponent := by
  obtain ⟨hsign, hvalue⟩ := field_of_ofCompact? h hpos
  constructor
  · by_cases he : c.exponent ≤ 3
    · rw [Nat.sub_eq_zero_of_le he, pow_zero]
      exact one_dvd _
    · rw [hvalue, pow_256_of_three_le (Nat.le_of_not_le he), ← Nat.mul_assoc,
        Nat.mul_div_cancel _ (pow_256_pos 3)]
      exact Nat.dvd_mul_left _ _
  · have hfield : c.field * 256 ^ c.exponent < 2 ^ 23 * 256 ^ c.exponent :=
      Nat.mul_lt_mul_of_pos_right hsign (pow_256_pos _)
    omega

/-- A code that denotes a positive target has a positive exponent, and the target reaches the unit
of that exponent. -/
theorem unit_le_of_ofCompact? {c : CompactTarget} {u : Target} (h : ofCompact? c = some u)
    (hpos : 0 < u.toNat) : 0 < c.exponent ∧ 256 ^ (c.exponent - 3) ≤ u.toNat := by
  obtain ⟨hdvd, hsize⟩ := unit_dvd_of_ofCompact? h hpos
  refine ⟨Nat.pos_of_ne_zero fun hzero => ?_, Nat.le_of_dvd hpos hdvd⟩
  rw [hzero] at hsize
  omega

/-! ## One after the other -/

/-- Decoding the code of a target gives the target at the precision of that code. -/
theorem ofCompact?_toCompact (t : Target) :
    ofCompact? t.toCompact = some (t.maskToPrecisionOf t.toCompact) := by
  have hhigh : 2 * t.toNat < 256 ^ t.toCompact.exponent :=
    (t.exponent_toCompact_le_iff _).1 le_rfl
  obtain ⟨u, hu, hval⟩ := ofCompact?_of_fits t.field_toCompact_lt t.field_toCompact_fits
  rw [hu, Option.some.injEq, ← toNat_inj, hval, field_toCompact, scale_div_mul_eq_round,
    toNat_maskToPrecisionOf, digitWindow_eq_round, Nat.mod_eq_of_lt (by omega)]

/-- Reducing a target to the precision of its own code does not change the code. -/
theorem toCompact_mask_toCompact (t : Target) :
    (t.maskToPrecisionOf t.toCompact).toCompact = t.toCompact := by
  have hsize : IsCodeSize t.toCompact.exponent t.toNat := (t.exponent_toCompact_eq_iff _).1 rfl
  have hlt : t.toNat < 256 ^ t.toCompact.exponent := by
    have := hsize.1
    omega
  exact toCompact_eq_of_window (toNat_maskToPrecisionOf t _) (Nat.mod_eq_of_lt hlt).symm hsize

/-! ## Reduced targets -/

protected theorem le_trans {s t u : Target} : s ≤ t → t ≤ u → s ≤ u := Nat.le_trans

theorem mask_le (t : Target) (bits : CompactTarget) : t.maskToPrecisionOf bits ≤ t := by
  show (t.maskToPrecisionOf bits).toNat ≤ t.toNat
  rw [toNat_maskToPrecisionOf]
  exact digitWindow_le _ _

/-- The precision of its own code leaves something of a positive target. -/
theorem mask_toCompact_pos {t : Target} (ht : 0 < t.toNat) :
    0 < (t.maskToPrecisionOf t.toCompact).toNat := by
  rw [Nat.pos_iff_ne_zero, ne_eq, ← field_toCompact_eq_zero_iff, toCompact_mask_toCompact,
    field_toCompact_eq_zero_iff]
  exact ht.ne'

end HeaderRules.Target
