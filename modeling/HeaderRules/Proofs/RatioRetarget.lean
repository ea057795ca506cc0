import HeaderRules.Proofs.Ancestry
import HeaderRules.Proofs.CompactCodec
import HeaderRules.Retarget.Ratio

/-!
# The ratio retarget in exact arithmetic

A ratio retarget multiplies in 512 bits and measures in 64 bits with saturation. Nothing of that is
visible: heights and times have 32 bits, so that no sum leaves its range, and the target is the
exact product of the old one and the limited timespan over the target timespan, rounded down
(`toNat_of_ratioTarget`). With the classic limits it is at most four times the old one.
-/

namespace HeaderRules

open Outcome

/-! ## Scaling -/

namespace Target

/-- A 64-bit count keeps its number in a wider word. -/
theorem toNat_ofNat_count {w : Nat} (hw : 64 ≤ w) (n : UInt64) :
    (BitVec.ofNat w n.toNat).toNat = n.toNat := by
  rw [BitVec.toNat_ofNat]
  exact Nat.mod_eq_of_lt (n.toNat_lt.trans_le (Nat.pow_le_pow_right (by decide) hw))

/-- The product with a count is exact where 64 bits of the word are free. -/
theorem toNat_mul_count {k w : Nat} (hw : k + 64 ≤ w) {x : BitVec w} (hx : x.toNat < 2 ^ k)
    (n : UInt64) : (x * BitVec.ofNat w n.toNat).toNat = x.toNat * n.toNat := by
  have hproduct : x.toNat * n.toNat < 2 ^ k * 2 ^ 64 := Nat.mul_lt_mul'' hx n.toNat_lt
  rw [← pow_add] at hproduct
  rw [BitVec.toNat_mul, toNat_ofNat_count (by omega)]
  exact Nat.mod_eq_of_lt (hproduct.trans_le (Nat.pow_le_pow_right (by decide) hw))

theorem toNat_widen (t : Target) : t.widen.toNat = t.toNat :=
  BitVec.toNat_setWidth_of_le (by decide)

theorem toNat_greatest : greatest.toNat = 2 ^ 256 - 1 := BitVec.toNat_allOnes

/-- Narrowing stops at the greatest target. -/
theorem toNat_narrow (w : BitVec 512) : (narrow w).toNat = min w.toNat (2 ^ 256 - 1) := by
  have hle : w ≤ greatest.widen ↔ w.toNat ≤ 2 ^ 256 - 1 := by
    rw [BitVec.le_def, toNat_widen, toNat_greatest]
  rw [narrow]
  split_ifs with h
  · have hw := hle.1 h
    show (w.setWidth 256).toNat = _
    rw [BitVec.toNat_setWidth, Nat.mod_eq_of_lt (by omega), Nat.min_eq_left hw]
  · have hw := mt hle.2 h
    rw [toNat_greatest, Nat.min_eq_right (by omega)]

/-- Scaling rounds the exact quotient down, and stops at the greatest target. -/
theorem toNat_mulDiv (t : Target) (numerator : UInt64) {denominator : UInt64}
    (hpos : 0 < denominator.toNat) :
    ∃ scaled, t.mulDiv numerator denominator = some scaled ∧
      scaled.toNat = min (t.toNat * numerator.toNat / denominator.toNat) (2 ^ 256 - 1) := by
  have hzero : denominator ≠ 0 := by
    rw [ne_eq, ← UInt64.toNat_inj]
    exact hpos.ne'
  have hwide : t.widen.toNat < 2 ^ 256 := t.toNat_widen ▸ t.value.isLt
  refine ⟨_, if_neg hzero, ?_⟩
  rw [toNat_narrow, BitVec.toNat_udiv, toNat_mul_count (by decide) hwide, toNat_widen,
    toNat_ofNat_count (by decide)]

end Target

/-! ## Timespans -/

theorem toInt_min (a b : Int64) : (min a b).toInt = min a.toInt b.toInt := by
  show (if a ≤ b then a else b).toInt = _
  split_ifs with h
  · exact (Int.min_eq_left (Int64.le_iff_toInt_le.1 h)).symm
  · have := mt Int64.le_iff_toInt_le.2 h
    exact (Int.min_eq_right (by omega)).symm

theorem toInt_max (a b : Int64) : (max a b).toInt = max a.toInt b.toInt := by
  show (if a ≤ b then b else a).toInt = _
  split_ifs with h
  · exact (Int.max_eq_right (Int64.le_iff_toInt_le.1 h)).symm
  · have := mt Int64.le_iff_toInt_le.2 h
    exact (Int.max_eq_left (by omega)).symm

/-- A count of seconds over a positive divisor. -/
theorem toInt_seconds_div (t : UInt32) {divisor : Int64} (hpos : 0 < divisor.toInt) :
    (seconds t / divisor).toInt = t.toNat / divisor.toInt := by
  have hbound := t.toNat_lt
  have hnonneg : 0 ≤ (t.toNat : Int) / divisor.toInt := Int.ediv_nonneg (by omega) hpos.le
  have hle : (t.toNat : Int) / divisor.toInt ≤ t.toNat := Int.ediv_le_self _ (by omega)
  rw [Int64.toInt_div, toInt_seconds, Int.tdiv_eq_ediv_of_nonneg (by omega)]
  exact Int.bmod_eq_of_le (by omega) (by omega)

/-- The difference of two times never saturates. -/
theorem toInt_satSub64_seconds (s t : UInt32) :
    (satSub64 (seconds s) (seconds t)).toInt = s.toNat - t.toNat := by
  have := s.toNat_lt
  have := t.toNat_lt
  rw [satSub64, toInt_seconds, toInt_seconds, toInt_clampInt64_of_mem (by omega) (by omega)]

/-- A negative timespan counts as none. -/
theorem toNat_unsignedCount (n : Int64) :
    ((unsignedCount? n).getD 0).toNat = n.toInt.toNat := by
  have hzero : (0 : Int64).toInt = 0 := rfl
  rw [unsignedCount?]
  split_ifs with h
  · exact Int64.toNat_toUInt64_of_le h
  · have := mt Int64.le_iff_toInt_le.2 h
    rw [Option.getD_none, UInt64.toNat_zero]
    omega

namespace TimespanClamp

/-- Limits by ratios, in exact arithmetic. -/
theorem toInt_apply_ratio {minDivisor maxMultiplier : Int64} (hdivisor : 0 < minDivisor.toInt)
    (hmultiplier : 0 ≤ maxMultiplier.toInt) (timespan : Int64) (target : UInt32) :
    ((ratio minDivisor maxMultiplier).apply timespan (seconds target)).toInt =
      min (max timespan.toInt (target.toNat / minDivisor.toInt))
        (min (target.toNat * maxMultiplier.toInt) 0x7fffffffffffffff) := by
  have hproduct : 0 ≤ (target.toNat : Int) * maxMultiplier.toInt :=
    Int.mul_nonneg (by omega) hmultiplier
  rw [apply, toInt_min, toInt_max, toInt_seconds_div target hdivisor, satMul64, toInt_clampInt64,
    toInt_seconds]
  omega

/-- The classic limits: a quarter of the target and four times the target. -/
theorem toInt_apply_classic (timespan : Int64) (target : UInt32) :
    (classic.apply timespan (seconds target)).toInt =
      min (max timespan.toInt (target.toNat / 4)) (target.toNat * 4) := by
  have := target.toNat_lt
  have hfour : (4 : Int64).toInt = 4 := rfl
  rw [classic, toInt_apply_ratio (by decide) (by decide), hfour]
  omega

end TimespanClamp

/-! ## The target -/

namespace ChainParams

variable {c : ChainParams} {prev : StoredBlock} {history : History} {t : Target}

/-- The timespan is measured from the block where the interval starts and then limited. -/
theorem timespan_eq_ok_iff {timespan : Int64} :
    c.timespan prev history = .ok timespan ↔
      ∃ start, history.ancestor (c.params.retargetBlockspan prev.height).toNat prev = .ok start ∧
        (c.params.timespanClamp prev.height).apply
          (satSub64 (seconds prev.time) (seconds start.time))
          (seconds (c.params.targetTimespanAt prev.height)) = timespan := by
  rw [ChainParams.timespan, bind_eq_ok_iff]
  refine exists_congr fun start => and_congr_right fun _ => ?_
  show Except.ok _ = Except.ok timespan ↔ _
  rw [Except.ok.injEq]

/-- The timespan depends on history through the time of one ancestor. -/
theorem timespan_eq_map (prev : StoredBlock) (history : History) :
    c.timespan prev history =
      ((history.ancestor (c.params.retargetBlockspan prev.height).toNat prev).map
        StoredBlock.time).map fun start => (c.params.timespanClamp prev.height).apply
          (satSub64 (seconds prev.time) (seconds start))
          (seconds (c.params.targetTimespanAt prev.height)) := by
  rw [timespan]
  cases history.ancestor (c.params.retargetBlockspan prev.height).toNat prev <;> rfl

/-- The required target of a ratio retarget is the decoded target of the previous block times the
limited timespan over the target timespan, rounded down. -/
theorem toNat_of_ratioTarget (hpos : 0 < (c.params.targetTimespanAt prev.height).toNat)
    (h : c.ratioTarget prev history = .ok t) :
    ∃ timespan old, c.timespan prev history = .ok timespan ∧ prev.target? = some old ∧
      t.toNat = min (old.toNat * timespan.toInt.toNat /
        (c.params.targetTimespanAt prev.height).toNat) (2 ^ 256 - 1) := by
  obtain ⟨timespan, htimespan, h⟩ := bind_eq_ok_iff.1 h
  obtain ⟨old, hold, h⟩ := bind_eq_ok_iff.1 h
  have hwide : 0 < (c.params.targetTimespanAt prev.height).toUInt64.toNat := by
    rwa [UInt32.toNat_toUInt64]
  obtain ⟨scaled, hscaled, hvalue⟩ := old.toNat_mulDiv ((unsignedCount? timespan).getD 0) hwide
  rw [toNat_unsignedCount, UInt32.toNat_toUInt64] at hvalue
  have ht : scaled = t := by
    simp only [hscaled, Option.getD_some] at h
    exact Except.ok.inj h
  exact ⟨timespan, old, htimespan, StoredBlock.decodedTarget_eq_ok_iff.1 hold, ht ▸ hvalue⟩

/-- With the classic limits a target is at most four times the previous one, whatever the times of
the blocks are. -/
theorem ratioTarget_le_four_mul (hclassic : c.params.timespanClamp prev.height = .classic)
    (hpos : 0 < (c.params.targetTimespanAt prev.height).toNat)
    (h : c.ratioTarget prev history = .ok t) :
    ∃ old, prev.target? = some old ∧ t.toNat ≤ 4 * old.toNat := by
  obtain ⟨timespan, old, htimespan, hold, ht⟩ := toNat_of_ratioTarget hpos h
  obtain ⟨start, -, hlimited⟩ := timespan_eq_ok_iff.1 htimespan
  refine ⟨old, hold, ?_⟩
  set target := c.params.targetTimespanAt prev.height
  have hlimit : timespan.toInt.toNat ≤ target.toNat * 4 := by
    rw [← hlimited, hclassic, TimespanClamp.toInt_apply_classic]
    omega
  calc t.toNat ≤ old.toNat * timespan.toInt.toNat / target.toNat := by
        rw [ht]
        exact Nat.min_le_left _ _
    _ ≤ old.toNat * (target.toNat * 4) / target.toNat :=
        Nat.div_le_div_right (Nat.mul_le_mul_left _ hlimit)
    _ = 4 * old.toNat := by
        rw [Nat.mul_left_comm, Nat.mul_div_cancel_left _ hpos, Nat.mul_comm]

end ChainParams

end HeaderRules
