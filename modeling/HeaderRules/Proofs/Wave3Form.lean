import HeaderRules.Proofs.GapPadding
import HeaderRules.Proofs.GravityRun
import Mathlib.Data.Finset.Max

/-!
# The third Dark Gravity Wave without its loop

The walk sums up the seconds between every two blocks it reads. Unless a time is zero the sum
telescopes, so that only the outermost two times matter, whatever the times between them are and
however often a block is read again (`elapsedAfter_eq_sub`). The target is then one formula of these
two times and of the averaged targets (`third_wave_scales_by_outermost_times`).

Without any condition on the times, the limits of the timespan keep the target between a third of
the hardest and three times the easiest of the averaged targets
(`third_wave_within_threefold_of_window`).

The timespans are 64-bit integers, and nothing keeps their products in range: a walk above a gap
reads as many blocks as its window has. Where three times the expected timespan is no 64-bit integer
anymore, it is negative first, and the average is not scaled at all (`target_eq_average`); beyond 64
bits it is small again, and a target may fall far below the third. Both results have a lone block
beside them where just this happens.
-/

namespace HeaderRules.Gravity.Wave3

open Algorithm (upperBlock gappedHistory target?_upperBlock)

variable {prev : StoredBlock} {history : History} {spacing : UInt32} {window : WindowBounds}
  {easiest : Target} {targets : Nat → Target} {blocks : Nat → StoredBlock} {n : Nat}

/-! ## The sum of the intervals -/

/-- The intervals between blocks with positive times sum up to the one between the first block and
the last. -/
theorem elapsedAfter_eq_sub (htimes : ∀ k < n, (blocks k).time ≠ 0) :
    elapsedAfter blocks (n + 1) = seconds (blocks 0).time - seconds (blocks n).time := by
  induction n with
  | zero =>
    show (0 : Int64) = seconds (blocks 0).time - seconds (blocks 0).time
    rw [Int64.sub_self]
  | succ n ih =>
    have hpositive : seconds (blocks n).time > 0 := by
      have htime : (blocks n).time.toNat ≠ 0 := fun hzero =>
        htimes n n.lt_succ_self (UInt32.toNat_inj.1 hzero)
      rw [gt_iff_lt, Int64.lt_iff_toInt_lt, toInt_seconds, Int64.toInt_zero]
      omega
    have hbefore : elapsedAfter blocks (n + 1) =
        seconds (blocks 0).time - seconds (blocks n).time := ih fun k hk => htimes k (by omega)
    rw [elapsedAfter, intervalsAfter, lastTime, if_pos hpositive, ← elapsedAfter, hbefore]
    grind

/-! ## The limits -/

/-- A timespan moved into the limits around the expected one. -/
def limited (elapsed expected : Int64) : Int64 := min (max elapsed (expected / 3)) (expected * 3)

/-- The shortest timespan that the limits let through. -/
def shortest (expected : Int64) : Int64 := min (expected / 3) (expected * 3)

theorem toInt_div_three (expected : Int64) :
    (expected / 3).toInt = expected.toInt.tdiv 3 :=
  Int64.toInt_div_of_ne_right expected 3 (by decide)

/-- Three times a positive timespan does not come out greater where it leaves its range. -/
theorem toInt_mul_three_le {expected : Int64} (hpos : 0 < expected.toInt) :
    (expected * 3).toInt ≤ 3 * expected.toInt := by
  have hthree : (3 : Int64).toInt = 3 := rfl
  rw [Int64.toInt_mul, hthree, Int.bmod_def]
  split_ifs <;> omega

theorem toInt_mul_three {expected : Int64} (hnonneg : 0 ≤ expected.toInt)
    (hfits : 3 * expected.toInt < 2 ^ 63) : (expected * 3).toInt = 3 * expected.toInt := by
  have hthree : (3 : Int64).toInt = 3 := rfl
  rw [Int64.toInt_mul, hthree, Int.mul_comm]
  exact Int.bmod_eq_of_le (by omega) (by omega)

theorem limited_mem (elapsed expected : Int64) :
    (shortest expected).toInt ≤ (limited elapsed expected).toInt ∧
      (limited elapsed expected).toInt ≤ (expected * 3).toInt := by
  unfold shortest limited
  rw [toInt_min, toInt_min, toInt_max]
  omega

theorem toInt_shortest_le {expected : Int64} (hpos : 0 < expected.toInt) :
    (shortest expected).toInt ≤ expected.toInt := by
  have hthird : expected.toInt.tdiv 3 = expected.toInt / 3 := Int.tdiv_eq_ediv_of_nonneg hpos.le
  unfold shortest
  rw [toInt_min, toInt_div_three, hthird]
  omega

/-- As long as three times the expected timespan fits, the shortest one is a third of it. -/
theorem toNat_shortest (hfits : 3 * (n * spacing.toNat) < 2 ^ 63) :
    (shortest (expectedSeconds spacing n)).toInt.toNat = n * spacing.toNat / 3 := by
  have hexpected : (expectedSeconds spacing n).toInt = (n * spacing.toNat : Nat) :=
    toInt_expectedSeconds (by omega)
  unfold shortest
  rw [toInt_min, toInt_div_three, toInt_mul_three (by omega) (by omega), hexpected,
    Int.tdiv_eq_ediv_of_nonneg (Int.natCast_nonneg _)]
  omega

/-- As long as three times the expected timespan fits, the limits are exact. -/
theorem toInt_limited (newest oldest : UInt32) (hfits : 3 * (n * spacing.toNat) < 2 ^ 63) :
    (limited (seconds newest - seconds oldest) (expectedSeconds spacing n)).toInt =
      min (max ((newest.toNat : Int) - oldest.toNat) (n * spacing.toNat / 3))
        (3 * (n * spacing.toNat)) := by
  have hexpected : (expectedSeconds spacing n).toInt = n * spacing.toNat :=
    toInt_expectedSeconds (by omega)
  have hfits' : 3 * ((n : Int) * spacing.toNat) < 2 ^ 63 := by exact_mod_cast hfits
  have hnonneg : 0 ≤ (n : Int) * spacing.toNat := by
    rw [← Int.natCast_mul]
    exact Int.natCast_nonneg _
  have hnewest := toInt_seconds newest
  have holdest := toInt_seconds oldest
  have := newest.toNat_lt
  have := oldest.toNat_lt
  unfold limited
  rw [toInt_min, toInt_max, toInt_div_three, toInt_mul_three (by omega) (by omega), hexpected,
    Int.tdiv_eq_ediv_of_nonneg hnonneg, toInt_sub_of_mem (by omega) (by omega), hnewest, holdest]

/-- Three times the expected timespan is negative where it is no 64-bit integer but would be one
without a sign. -/
theorem toInt_mul_three_neg (hlow : 2 ^ 63 ≤ 3 * (n * spacing.toNat))
    (hhigh : 3 * (n * spacing.toNat) < 2 ^ 64) : (expectedSeconds spacing n * 3).toInt < 0 := by
  have hthree : (3 : Int64).toInt = 3 := rfl
  have hexpected : (expectedSeconds spacing n).toInt = n * spacing.toNat :=
    toInt_expectedSeconds (by omega)
  have hmod : ((n * spacing.toNat : Nat) * 3 : Int) % (2 ^ 64 : Nat) =
      (n * spacing.toNat : Nat) * 3 := Int.emod_eq_of_lt (by omega) (by omega)
  rw [Int64.toInt_mul, hthree, hexpected, ← Int.natCast_mul, Int.bmod_def, hmod]
  split_ifs <;> omega

/-- There the upper limit leaves no timespan positive. -/
theorem limited_neg (hlow : 2 ^ 63 ≤ 3 * (n * spacing.toNat))
    (hhigh : 3 * (n * spacing.toNat) < 2 ^ 64) (elapsed : Int64) :
    (limited elapsed (expectedSeconds spacing n)).toInt < 0 :=
  (limited_mem elapsed _).2.trans_lt (toInt_mul_three_neg hlow hhigh)

/-! ## The formula -/

/-- The last state of a walk over some blocks, scaled. -/
theorem toNat_result_stateAfter (minimum : UInt64) (n : Nat) :
    (Algorithm.wave3.result spacing (stateAfter minimum targets blocks n)).toNat =
      scaledBy (averageOf weightedAverage targets (min n minimum.toNat)).toNat
        (limited (elapsedAfter blocks n) (expectedSeconds spacing n)).toInt
        (expectedSeconds spacing n).toInt := by
  have hexpected : signedCount (UInt64.ofNat n) * seconds spacing = expectedSeconds spacing n :=
    Int64.mul_comm _ _
  show (scale _ (min (max (elapsedAfter blocks n)
    (signedCount (UInt64.ofNat n) * seconds spacing / 3))
    (signedCount (UInt64.ofNat n) * seconds spacing * 3))
    (signedCount (UInt64.ofNat n) * seconds spacing)).toNat = _
  rw [hexpected, toNat_scale]
  rfl

/-- Where the averaged codes decode, the walk gives a target. -/
theorem exists_target (spacing : UInt32) (easiest : Target) (hmax : window.max ≠ 0)
    (hlong : tooShort prev window = false)
    (hn : readCount history prev window.max.toNat = n)
    (hdecoded : ∀ k < min n window.min.toNat, (read history prev k).target? = some (targets k)) :
    ∃ t, target prev history spacing window easiest = .ok t ∧
      t.toNat = scaledBy (averageOf weightedAverage targets (min n window.min.toNat)).toNat
        (limited (elapsedAfter (read history prev) n) (expectedSeconds spacing n)).toInt
        (expectedSeconds spacing n).toInt := by
  subst hn
  rw [← WindowBounds.limit_eq hmax] at hdecoded ⊢
  exact ⟨_, Algorithm.target_eq_ok (w := .wave3) hmax hlong hdecoded,
    toNat_result_stateAfter window.min _⟩

/-- Where three times the expected timespan has 64 bits but is no 64-bit integer, the average is not
scaled, whatever the times are. -/
theorem target_eq_average (spacing : UInt32) (window : WindowBounds) (easiest : Target)
    (hmax : window.max ≠ 0) (hlong : tooShort prev window = false)
    (hn : readCount history prev window.max.toNat = n)
    (hdecoded : ∀ k < min n window.min.toNat, (read history prev k).target? = some (targets k))
    (hlow : 2 ^ 63 ≤ 3 * (n * spacing.toNat)) (hhigh : 3 * (n * spacing.toNat) < 2 ^ 64) :
    target prev history spacing window easiest =
      .ok (averageOf weightedAverage targets (min n window.min.toNat)) := by
  obtain ⟨t, ht, hvalue⟩ := exists_target spacing easiest hmax hlong hn hdecoded
  rw [scaledBy_of_not_pos (.inl (limited_neg hlow hhigh _).le)] at hvalue
  rw [ht, Target.toNat_inj.1 hvalue]

/-- The numbers of the targets that the first `m` reads have. -/
def decodedTargets (history : History) (prev : StoredBlock) (m : Nat) : Set Nat :=
  {x | ∃ k < m, ∃ t, (read history prev k).target? = some t ∧ t.toNat = x}

/-- Some reads with targets have a hardest and an easiest one. -/
theorem exists_extremes {m : Nat} (hm : 0 < m)
    (hdecoded : ∀ k < m, (read history prev k).target? = some (targets k)) :
    ∃ lo hi, IsLeast (decodedTargets history prev m) lo ∧
      IsGreatest (decodedTargets history prev m) hi ∧
      ∀ k < m, lo ≤ (targets k).toNat ∧ (targets k).toNat ≤ hi := by
  have hset : decodedTargets history prev m =
      ((Finset.range m).image fun k => (targets k).toNat : Finset Nat) := by
    ext x
    simp only [decodedTargets, Set.mem_ofPred_eq, Finset.coe_image, Set.mem_image, Finset.coe_range,
      Set.mem_Iio]
    refine exists_congr fun k => and_congr_right fun hk => ?_
    rw [hdecoded k hk]
    simp
  have hne : ((Finset.range m).image fun k => (targets k).toNat).Nonempty :=
    ⟨_, Finset.mem_image_of_mem _ (Finset.mem_range.2 hm)⟩
  have hleast := Finset.isLeast_min' _ hne
  have hgreatest := Finset.isGreatest_max' _ hne
  rw [← hset] at hleast hgreatest
  refine ⟨_, _, hleast, hgreatest, fun k hk => ?_⟩
  have hmem : (targets k).toNat ∈ decodedTargets history prev m := ⟨k, hk, _, hdecoded k hk, rfl⟩
  exact ⟨hleast.2 hmem, hgreatest.2 hmem⟩

/-- As long as three times the expected timespan has 64 bits, no timespan scales an average to less
than a third of it. -/
theorem third_le_scaledBy {lo average : Nat} {elapsed : Int64}
    (hfits : 3 * (n * spacing.toNat) < 2 ^ 64) (hlo : lo ≤ average) (hlo_lt : lo < 2 ^ 256) :
    lo * (n * spacing.toNat / 3) / (n * spacing.toNat) ≤
      scaledBy average (limited elapsed (expectedSeconds spacing n)).toInt
        (expectedSeconds spacing n).toInt := by
  by_cases hexact : 3 * (n * spacing.toNat) < 2 ^ 63
  · obtain ⟨hshortest, -⟩ := limited_mem elapsed (expectedSeconds spacing n)
    have hlower := le_scaledBy hlo hlo_lt hshortest toInt_shortest_le
    have hexpected : (expectedSeconds spacing n).toInt.toNat = n * spacing.toNat := by
      rw [toInt_expectedSeconds (by omega), ← Int.natCast_mul, Int.toNat_natCast]
    rwa [toNat_shortest hexact, hexpected] at hlower
  · -- The upper limit is negative, so that the average is not scaled.
    have hneg := limited_neg (Nat.le_of_not_lt hexact) hfits elapsed
    rw [scaledBy_of_not_pos (.inl hneg.le)]
    exact (mul_div_le_of_le lo (Nat.div_le_self _ 3)).trans hlo

theorem decodedTargets_one {t : Target} (ht : prev.target? = some t) :
    decodedTargets history prev 1 = {t.toNat} := by
  ext x
  constructor
  · rintro ⟨k, hk, t', ht', rfl⟩
    obtain rfl : k = 0 := by omega
    exact congrArg Target.toNat (Option.some.inj (ht'.symm.trans ht))
  · rintro rfl
    exact ⟨0, Nat.one_pos, t, ht, rfl⟩

end HeaderRules.Gravity.Wave3
