import HeaderRules.Proofs.ExactRatio

/-!
# The envelope of a ratio retarget

Producers of blocks choose the times that a ratio retarget measures, and times may even fall. The
limits leave them only an interval: whatever was measured, the timespan lies between the shortest
and the longest that the limits let through (`TimespanClamp.exact_mem`). Scaling and rounding down
are monotone, so the required target lies between the old target scaled by the one and by the other
(`required_target_within_envelope`).
-/

namespace HeaderRules

/-! ## What limits let through -/

namespace TimespanClamp

variable {clamp : TimespanClamp} {target : Int}

/-- The shortest timespan that limits around a target let through. -/
def shortest : TimespanClamp → Int → Int
  | ratio minDivisor _, target => target / minDivisor.toInt
  | dampened _, target => target - target / 4

/-- The longest timespan that limits around a target let through. -/
def longest : TimespanClamp → Int → Int
  | ratio _ maxMultiplier, target => target * maxMultiplier.toInt
  | dampened _, target => target + target / 2

/-- Every timespan is moved between the shortest and the longest one. -/
theorem exact_mem (hclamp : clamp.Positive) (timespan : Int) (htarget : 0 ≤ target) :
    clamp.shortest target ≤ clamp.exact timespan target ∧
      clamp.exact timespan target ≤ clamp.longest target := by
  cases clamp with
  | ratio minDivisor maxMultiplier =>
    obtain ⟨-, hmultiplier⟩ := hclamp
    -- The two limits cannot cross: the target lies between them.
    have hlow : target / minDivisor.toInt ≤ target := Int.ediv_le_self _ htarget
    have hhigh := Int.mul_le_mul_of_nonneg_left hmultiplier htarget
    rw [exact, shortest, longest, Int.tdiv_eq_ediv_of_nonneg htarget]
    omega
  | dampened dampening =>
    rw [exact, shortest, longest, Int.tdiv_eq_ediv_of_nonneg htarget,
      Int.tdiv_eq_ediv_of_nonneg htarget]
    omega

end TimespanClamp

/-! ## What a retarget can require -/

namespace ChainParams

variable {c : ChainParams} {prev : StoredBlock} {history : History} {t : Target} {target : Nat}

/-- The limits hold for the timespan of a retarget, whatever the times of the blocks are. -/
theorem timespan_mem (hclamp : (c.params.timespanClamp prev.height).Positive)
    (htarget : (c.params.targetTimespanAt prev.height).toNat = target) {timespan : Int64}
    (h : c.timespan prev history = .ok timespan) :
    (c.params.timespanClamp prev.height).shortest target ≤ timespan.toInt ∧
      timespan.toInt ≤ (c.params.timespanClamp prev.height).longest target := by
  obtain ⟨start, -, hexact⟩ := toInt_timespan hclamp h
  rw [hexact, htarget]
  exact TimespanClamp.exact_mem hclamp _ (Int.natCast_nonneg target)

/-- A ratio retarget that succeeds scales the old target by the limited timespan. -/
theorem exists_timespan_of_requiredTarget
    (hratio : c.params.window? (nextHeight prev.height) = none)
    (hclamp : (c.params.timespanClamp prev.height).Positive)
    (htarget : (c.params.targetTimespanAt prev.height).toNat = target) (hpos : 0 < target)
    (ht : c.requiredTarget prev history = .ok t) :
    ∃ old timespan, prev.target? = some old ∧ c.timespan prev history = .ok timespan ∧
      (t.toNat : Int) =
        min (c.maxTarget.toNat : Int) (old.toNat * timespan.toInt / target) := by
  subst htarget
  obtain ⟨u, hu, hlimit⟩ := requiredTarget_eq_ok_iff.1 ht
  rw [computedTarget_of_no_window hratio] at hu
  obtain ⟨timespan, old, htimespan, hold, hvalue⟩ := toNat_of_ratioTarget hpos hu
  obtain ⟨start, -, hexact⟩ := toInt_timespan hclamp htimespan
  have hnonneg : 0 ≤ timespan.toInt := by
    rw [hexact]
    exact TimespanClamp.exact_nonneg hclamp _ (Int.natCast_nonneg _)
  refine ⟨old, timespan, hold, htimespan, ?_⟩
  -- The greatest target, at which scaling stops, is beyond the maximum.
  have hmax := c.maxTarget.toNat_lt
  rw [hlimit, hvalue, ← Int.toNat_of_nonneg hnonneg, ← Int.natCast_mul, ← Int.natCast_ediv,
    Int.toNat_natCast]
  omega

/-- The required target between two stored blocks, in exact arithmetic. -/
theorem toNat_requiredTarget {start : StoredBlock} {old : Target}
    (hratio : c.params.window? (nextHeight prev.height) = none)
    (hclamp : (c.params.timespanClamp prev.height).Positive)
    (htarget : (c.params.targetTimespanAt prev.height).toNat = target) (hpos : 0 < target)
    (hold : prev.target? = some old)
    (hstart : history.ancestor (c.params.retargetBlockspan prev.height).toNat prev = .ok start)
    (ht : c.requiredTarget prev history = .ok t) :
    (t.toNat : Int) = min (c.maxTarget.toNat : Int) (old.toNat *
      (c.params.timespanClamp prev.height).exact (prev.time.toNat - start.time.toNat) target /
        target) := by
  obtain ⟨old', timespan, hold', htimespan, hvalue⟩ :=
    exists_timespan_of_requiredTarget hratio hclamp htarget hpos ht
  obtain ⟨start', hstart', hexact⟩ := toInt_timespan hclamp htimespan
  obtain rfl : old = old' := Option.some.inj (hold.symm.trans hold')
  obtain rfl : start = start' := Except.ok.inj (hstart.symm.trans hstart')
  rw [hvalue, hexact, htarget]

/-- The required target lies between what the shortest and the longest timespan would give. -/
theorem requiredTarget_mem
    (hratio : c.params.window? (nextHeight prev.height) = none)
    (hclamp : (c.params.timespanClamp prev.height).Positive)
    (htarget : (c.params.targetTimespanAt prev.height).toNat = target) (hpos : 0 < target)
    (ht : c.requiredTarget prev history = .ok t) :
    ∃ old timespan, prev.target? = some old ∧ c.timespan prev history = .ok timespan ∧
      min (c.maxTarget.toNat : Int)
        (old.toNat * (c.params.timespanClamp prev.height).shortest target / target) ≤ t.toNat ∧
      t.toNat ≤ min (c.maxTarget.toNat : Int)
        (old.toNat * (c.params.timespanClamp prev.height).longest target / target) := by
  obtain ⟨old, timespan, hold, htimespan, hvalue⟩ :=
    exists_timespan_of_requiredTarget hratio hclamp htarget hpos ht
  obtain ⟨hshortest, hlongest⟩ := timespan_mem hclamp htarget htimespan
  have hpos : (0 : Int) < target := Int.natCast_pos.2 hpos
  have hold_nonneg : (0 : Int) ≤ old.toNat := Int.natCast_nonneg _
  have hlow := Int.ediv_le_ediv hpos (Int.mul_le_mul_of_nonneg_left hshortest hold_nonneg)
  have hhigh := Int.ediv_le_ediv hpos (Int.mul_le_mul_of_nonneg_left hlongest hold_nonneg)
  rw [hvalue]
  exact ⟨old, timespan, hold, htimespan, min_le_min_left _ hlow, min_le_min_left _ hhigh⟩

/-- Let a ratio retarget succeed after `prev`, with limits whose constants are at least one and a
positive target timespan. Whatever the times of the blocks are, the required target is, up to the
maximum, at least the old one over the divisor and at most the old one times the multiplier; and
with dampening at least three quarters and at most one and a half of it, rounded as written. The
timespan that it is scaled by is positive, with a divisor if that does not exceed the target
timespan. -/
theorem required_target_within_envelope
    (hratio : c.params.window? (nextHeight prev.height) = none)
    (hclamp : (c.params.timespanClamp prev.height).Positive)
    (htarget : (c.params.targetTimespanAt prev.height).toNat = target) (hpos : 0 < target)
    (ht : c.requiredTarget prev history = .ok t) :
    ∃ old timespan, prev.target? = some old ∧ c.timespan prev history = .ok timespan ∧
      (∀ minDivisor maxMultiplier,
        c.params.timespanClamp prev.height = .ratio minDivisor maxMultiplier →
        min (c.maxTarget.toNat : Int) (old.toNat * (target / minDivisor.toInt) / target) ≤ t.toNat ∧
          t.toNat ≤ min (c.maxTarget.toNat : Int) (maxMultiplier.toInt * old.toNat) ∧
          (minDivisor.toInt ≤ target → 0 < timespan.toInt)) ∧
      ∀ dampening, c.params.timespanClamp prev.height = .dampened dampening →
        min (c.maxTarget.toNat : Int) (old.toNat * (target - target / 4) / target) ≤ t.toNat ∧
          t.toNat ≤ min (c.maxTarget.toNat : Int) (old.toNat * (target + target / 2) / target) ∧
          0 < timespan.toInt := by
  obtain ⟨old, timespan, hold, htimespan, hlow, hhigh⟩ :=
    requiredTarget_mem hratio hclamp htarget hpos ht
  have hshortest := (timespan_mem hclamp htarget htimespan).1
  have hpos : (0 : Int) < target := Int.natCast_pos.2 hpos
  refine ⟨old, timespan, hold, htimespan, fun minDivisor maxMultiplier hlimits => ?_,
    fun dampening hlimits => ?_⟩
  · rw [hlimits] at hclamp hlow hhigh hshortest
    -- The target timespan cancels out of the longest timespan, but not out of the shortest one.
    have hcancel : (old.toNat : Int) * (target * maxMultiplier.toInt) / target =
        maxMultiplier.toInt * old.toNat := by
      rw [Int.mul_left_comm, Int.mul_ediv_cancel_left _ hpos.ne', Int.mul_comm]
    refine ⟨hlow, hcancel ▸ hhigh, fun hdivisor => ?_⟩
    obtain ⟨hone, -⟩ := hclamp
    have hquotient : 1 ≤ (target : Int) / minDivisor.toInt :=
      Int.le_ediv_of_mul_le (by omega) (by omega)
    exact Int.lt_of_lt_of_le hquotient hshortest
  · rw [hlimits] at hlow hhigh hshortest
    have hquarter : (0 : Int) < target - target / 4 := by omega
    exact ⟨hlow, hhigh, Int.lt_of_lt_of_le hquarter hshortest⟩

/-- The last block before the first retarget of Dogecoin. -/
def firstTip (bits : CompactTarget) (gap : UInt32) : StoredBlock :=
  { gapTip bits gap with height := 239 }

/-- Ten minutes back in time count as the shortest timespan: Dogecoin divides its target by sixteen
at the first retarget, and takes three quarters of it at a late one. -/
theorem dogecoin_within_envelope_after_step_back :
    (∃ t timespan,
      dogecoin.requiredTarget (firstTip ⟨0x1c00ffff⟩ (0 - 600)) (gapHistory ⟨0x1c00ffff⟩) = .ok t ∧
      dogecoin.timespan (firstTip ⟨0x1c00ffff⟩ (0 - 600)) (gapHistory ⟨0x1c00ffff⟩) = .ok timespan ∧
      (0xffff * 256 ^ 25 / 16 : Int) ≤ t.toNat ∧ t.toNat ≤ 4 * (0xffff * 256 ^ 25 : Int) ∧
      0 < timespan.toInt) ∧
    ∃ t timespan,
      dogecoin.requiredTarget (gapTip ⟨0x1c00ffff⟩ (0 - 600)) (gapHistory ⟨0x1c00ffff⟩) = .ok t ∧
      dogecoin.timespan (gapTip ⟨0x1c00ffff⟩ (0 - 600)) (gapHistory ⟨0x1c00ffff⟩) = .ok timespan ∧
      (0xffff * 256 ^ 25 * 3 / 4 : Int) ≤ t.toNat ∧ t.toNat ≤ (0xffff * 256 ^ 25 * 3 / 2 : Int) ∧
      0 < timespan.toInt := by
  have hdecode : Target.ofCompact? ⟨0x1c00ffff⟩ = some (.ofNat (0xffff * 256 ^ 25)) := by
    decide +kernel
  constructor
  · have ht : dogecoin.requiredTarget (firstTip ⟨0x1c00ffff⟩ (0 - 600))
        (gapHistory ⟨0x1c00ffff⟩) = .ok (.ofNat (0xffff * 256 ^ 25 / 16)) := by decide +kernel
    have hclamp : (dogecoin.params.timespanClamp
        (firstTip ⟨0x1c00ffff⟩ (0 - 600)).height).Positive := by
      show 1 ≤ (16 : Int64).toInt ∧ 1 ≤ (4 : Int64).toInt
      decide
    have htarget : (dogecoin.params.targetTimespanAt
        (firstTip ⟨0x1c00ffff⟩ (0 - 600)).height).toNat = 14400 := by decide +kernel
    obtain ⟨old, timespan, hold, htimespan, hratio, -⟩ :=
      required_target_within_envelope rfl hclamp htarget (by decide) ht
    obtain rfl := Option.some.inj (hdecode.symm.trans hold)
    obtain ⟨hlow, hhigh, hpositive⟩ := hratio 16 4 rfl
    exact ⟨_, timespan, ht, htimespan, le_trans (by decide +kernel) hlow,
      hhigh.trans (by decide +kernel), hpositive (by decide)⟩
  · have ht : dogecoin.requiredTarget (gapTip ⟨0x1c00ffff⟩ (0 - 600))
        (gapHistory ⟨0x1c00ffff⟩) = .ok (.ofNat (0xffff * 256 ^ 25 * 3 / 4)) := by decide +kernel
    have hclamp : (dogecoin.params.timespanClamp
        (gapTip ⟨0x1c00ffff⟩ (0 - 600)).height).Positive := by
      show 1 ≤ (8 : Int64).toInt
      decide
    have htarget : (dogecoin.params.targetTimespanAt
        (gapTip ⟨0x1c00ffff⟩ (0 - 600)).height).toNat = 60 := by decide +kernel
    obtain ⟨old, timespan, hold, htimespan, -, hdampened⟩ :=
      required_target_within_envelope rfl hclamp htarget (by decide) ht
    obtain rfl := Option.some.inj (hdecode.symm.trans hold)
    obtain ⟨hlow, hhigh, hpositive⟩ := hdampened 8 rfl
    exact ⟨_, timespan, ht, htimespan, le_trans (by decide +kernel) hlow,
      hhigh.trans (by decide +kernel), hpositive⟩

end ChainParams

end HeaderRules
