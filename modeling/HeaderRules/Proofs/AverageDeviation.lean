import HeaderRules.Proofs.CheckedArithmetic
import HeaderRules.Proofs.RunningAverage
import Mathlib.Algebra.BigOperators.Intervals
import Mathlib.Algebra.BigOperators.Ring.Finset
import Mathlib.Algebra.Order.Field.Basic
import Mathlib.Order.Lattice.Nat
import Mathlib.Tactic.FieldSimp
import Mathlib.Tactic.Linarith

/-!
# How far a running average is from the mean

A running average is not the mean of its targets, since every step truncates. The incremental one is
truncated toward itself: downward where the new target lies above it and upward where it lies below,
so that what is lost may add up in either direction. `deviation` is the signed sum of the losses. A
step loses the remainder of one division by the count (`deviation_succ`), which is less than the
count, and the losses of `n` targets are at most `0 + 1 + ⋯ + (n - 1)` in total
(`two_mul_abs_deviation_le`).

The weighted one divides by one more than the count, and is a mean in which the first target, the
newest of a chain, counts twice. Its steps are rounded down, so that all losses go one way: with
them the average accounts for the whole sum of the targets (`weightedSum_eq`), and those of `n`
targets are at most `2 + 3 + ⋯ + n` in total (`two_mul_sum_weightedLoss_le`).
-/

namespace HeaderRules.Gravity

open Target (greatest)

variable {targets : Nat → Target} {n : Nat}

/-- How far `n` times the average of `n` targets is from their sum. -/
def deviation (combine : Target → Target → UInt64 → Target) (targets : Nat → Target) (n : Nat) :
    Int :=
  n * (averageOf combine targets n).toNat - ∑ k ∈ Finset.range n, ((targets k).toNat : Int)

/-! ## The incremental average -/

/-- A step toward a target does not lead beyond it. -/
theorem keepsBounds_incrementalAverage : KeepsBounds incrementalAverage (2 ^ 64) := by
  intro average target count lo hi hpos _ haverage htarget
  have hvalue := toNat_incrementalAverage average target hpos
  have hstep := Checked.Range.tdiv_mem_between (a := (target.toNat : Int) - average.toNat)
    (show (1 : Int) ≤ count.toNat by omega)
  omega

/-- The average after `count` targets, times the count, is what it was times one less, and the new
target, less the remainder of their distance. -/
theorem mul_toNat_incrementalAverage (average target : Target) (count : UInt64)
    (hcount : 0 < count.toNat) :
    (count.toNat : Int) * (incrementalAverage average target count).toNat =
      (count.toNat - 1) * average.toNat + target.toNat -
        ((target.toNat : Int) - average.toNat).tmod count.toNat := by
  rw [toNat_incrementalAverage average target hcount, mul_add]
  have hdivision := Int.mul_tdiv_add_tmod ((target.toNat : Int) - average.toNat) count.toNat
  linarith

/-- What is lost where one more target is taken in: the remainder of its distance from the average
of those before it. -/
def loss (targets : Nat → Target) (n : Nat) : Int :=
  ((targets n).toNat - (averageOf incrementalAverage targets n).toNat : Int).tmod (n + 1 : Nat)

/-- A loss is less than the count, whatever its sign. -/
theorem abs_loss_le (targets : Nat → Target) (n : Nat) : |loss targets n| ≤ n := by
  have hcount : (0 : Int) < (n + 1 : Nat) := by omega
  have hupper : loss targets n < (n + 1 : Nat) := Int.tmod_lt_of_pos _ hcount
  have hlower : -((n + 1 : Nat) : Int) < loss targets n := Int.lt_tmod_of_pos _ hcount
  rw [abs_le]
  omega

/-- The deviation is the sum of the losses. -/
theorem deviation_succ (hn : 0 < n) (hcount : n + 1 < 2 ^ 64) :
    deviation incrementalAverage targets (n + 1) =
      deviation incrementalAverage targets n - loss targets n := by
  have hword : (UInt64.ofNat (n + 1)).toNat = n + 1 := UInt64.toNat_ofNat_of_lt hcount
  have hstep := mul_toNat_incrementalAverage (averageOf incrementalAverage targets n) (targets n)
    (.ofNat (n + 1)) (by omega)
  rw [hword] at hstep
  rw [deviation, averageOf_succ, if_neg hn.ne', hstep, Finset.sum_range_succ, deviation, loss]
  push_cast
  ring

/-- The losses of `n` targets add up to half of `n (n - 1)` at most. -/
theorem two_mul_abs_deviation_le (targets : Nat → Target) (hn : 0 < n) (hcount : n < 2 ^ 64) :
    2 * |deviation incrementalAverage targets n| ≤ n * (n - 1) := by
  induction n with
  | zero => exact absurd hn (Nat.lt_irrefl 0)
  | succ n ih =>
    rcases Nat.eq_zero_or_pos n with rfl | hpos
    · simp [deviation, averageOf]
    · have hbefore := ih hpos (by omega)
      have hloss := abs_loss_le targets n
      have htotal := abs_sub (deviation incrementalAverage targets n) (loss targets n)
      rw [deviation_succ hpos hcount]
      push_cast
      linarith

/-- The incremental average of `n` targets lies between the least and the greatest of them, and is
within `(n - 1) / 2` of their mean, however the targets are ordered and however many they are, as
long as their number fits the count. -/
theorem incremental_average_is_near_mean (targets : Nat → Target) (hn : 0 < n)
    (hcount : n < 2 ^ 64) :
    (∃ k < n, targets k ≤ averageOf incrementalAverage targets n) ∧
      (∃ k < n, averageOf incrementalAverage targets n ≤ targets k) ∧
      |n * ((averageOf incrementalAverage targets n).toNat : Int) -
        ∑ k ∈ Finset.range n, ((targets k).toNat : Int)| ≤ n * (n - 1) / 2 ∧
      |((averageOf incrementalAverage targets n).toNat : Rat) -
        (∑ k ∈ Finset.range n, ((targets k).toNat : Rat)) / n| ≤ (n - 1) / 2 := by
  have hrange : (Finset.range n).Nonempty := ⟨0, Finset.mem_range.2 hn⟩
  obtain ⟨least, hleast, hlo⟩ :=
    (Finset.range n).exists_min_image (fun k => (targets k).toNat) hrange
  obtain ⟨greatest, hgreatest, hhi⟩ :=
    (Finset.range n).exists_max_image (fun k => (targets k).toNat) hrange
  obtain ⟨hlower, hupper⟩ := averageOf_mem keepsBounds_incrementalAverage le_rfl hn hcount
    fun k hk => ⟨hlo k (Finset.mem_range.2 hk), hhi k (Finset.mem_range.2 hk)⟩
  have hdeviation := two_mul_abs_deviation_le targets hn hcount
  refine ⟨⟨least, Finset.mem_range.1 hleast, hlower⟩,
    ⟨greatest, Finset.mem_range.1 hgreatest, hupper⟩, ?_, ?_⟩
  · rw [Int.le_ediv_iff_mul_le (by decide), mul_comm]
    exact hdeviation
  · have hn_pos : (0 : Rat) < n := Nat.cast_pos.2 hn
    have hmean : ((averageOf incrementalAverage targets n).toNat : Rat) -
        (∑ k ∈ Finset.range n, ((targets k).toNat : Rat)) / n =
          (deviation incrementalAverage targets n : Rat) / n := by
      rw [deviation]
      push_cast
      field_simp
    have hcast : 2 * |(deviation incrementalAverage targets n : Rat)| ≤ n * (n - 1) := by
      exact_mod_cast hdeviation
    rw [hmean, abs_div, abs_of_pos hn_pos, div_le_iff₀ hn_pos]
    linarith

/-- Targets that fall by one at a time. -/
def fallingTargets (k : Nat) : Target := .ofNat (9 - k)

/-- Over ten targets that fall by one at a time the average does not move at all, and it ends as far
from the mean as it may. -/
theorem falling_targets_lose_most :
    averageOf incrementalAverage fallingTargets 10 = .ofNat 9 ∧
      |10 * ((averageOf incrementalAverage fallingTargets 10).toNat : Int) -
        ∑ k ∈ Finset.range 10, ((fallingTargets k).toNat : Int)| = 10 * (10 - 1) / 2 ∧
      (∃ k < 10, averageOf incrementalAverage fallingTargets 10 ≤ fallingTargets k) ∧
      |((averageOf incrementalAverage fallingTargets 10).toNat : Rat) -
        (∑ k ∈ Finset.range 10, ((fallingTargets k).toNat : Rat)) / 10| ≤ (10 - 1) / 2 := by
  obtain ⟨-, hgreatest, -, hmean⟩ :=
    incremental_average_is_near_mean fallingTargets (n := 10) (by decide) (by decide)
  exact ⟨by decide, by decide, hgreatest, by exact_mod_cast hmean⟩

/-! ## The weighted average -/

/-- The sum of some targets in which the first one counts twice. -/
def weightedSum (targets : Nat → Target) (n : Nat) : Nat :=
  2 * (targets 0).toNat + ∑ k ∈ Finset.Ico 1 n, (targets k).toNat

theorem weightedSum_succ (targets : Nat → Target) (hn : 0 < n) :
    weightedSum targets (n + 1) = weightedSum targets n + (targets n).toNat := by
  rw [weightedSum, Finset.sum_Ico_succ_top hn, ← Nat.add_assoc, ← weightedSum]

/-- What is lost where one more target is taken in: the remainder of the division by one more than
the count. -/
def weightedLoss (targets : Nat → Target) (n : Nat) : Nat :=
  ((averageOf weightedAverage targets n).toNat * (n + 1) + (targets n).toNat) % (n + 2)

/-- Times `n + 2`, the next average and what is lost are the average before it times `n + 1` and the
new target. -/
theorem mul_toNat_averageOf_succ_add_loss (targets : Nat → Target) (hn : 0 < n)
    (hcount : n + 2 < 2 ^ 64) :
    (n + 2) * (averageOf weightedAverage targets (n + 1)).toNat + weightedLoss targets n =
      (n + 1) * (averageOf weightedAverage targets n).toNat + (targets n).toNat := by
  have hword : (UInt64.ofNat (n + 1)).toNat = n + 1 :=
    UInt64.toNat_ofNat_of_lt (Nat.lt_of_succ_lt hcount)
  rw [averageOf_succ, if_neg hn.ne', toNat_weightedAverage _ _ (by omega), hword, weightedLoss,
    Nat.div_add_mod, Nat.mul_comm]

/-- No quotient on the way is too great for a target, so that the next average is that quotient. -/
theorem averageOf_succ_eq_quotient (targets : Nat → Target) (hn : 0 < n)
    (hcount : n + 2 < 2 ^ 64) :
    weightedQuotient (averageOf weightedAverage targets n) (targets n) (.ofNat (n + 1)) ≤
        greatest.widen ∧
      averageOf weightedAverage targets (n + 1) =
        ⟨(weightedQuotient (averageOf weightedAverage targets n) (targets n)
          (.ofNat (n + 1))).setWidth 256⟩ := by
  have hword : (UInt64.ofNat (n + 1)).toNat = n + 1 :=
    UInt64.toNat_ofNat_of_lt (Nat.lt_of_succ_lt hcount)
  have hraise : (UInt64.ofNat (n + 1)).toNat + 1 < 2 ^ 64 := by omega
  refine ⟨weightedQuotient_le_greatest _ _ hraise, ?_⟩
  rw [averageOf_succ, if_neg hn.ne']
  exact weightedAverage_eq_quotient _ _ hraise

/-- The average accounts for the weighted sum up to the losses. -/
theorem weightedSum_eq (targets : Nat → Target) (hn : 0 < n) (hcount : n + 1 < 2 ^ 64) :
    weightedSum targets n = (n + 1) * (averageOf weightedAverage targets n).toNat +
      ∑ k ∈ Finset.Ico 1 n, weightedLoss targets k := by
  induction n, hn using Nat.le_induction with
  | base => simp [weightedSum, averageOf]
  | succ n hn ih =>
    have hbefore := ih (by omega)
    have hstep := mul_toNat_averageOf_succ_add_loss targets hn hcount
    -- What was lost before stays lost, and the step adds the remainder of its own division.
    rw [weightedSum_succ targets hn, Finset.sum_Ico_succ_top hn]
    linarith

/-- The loss of a step is at most the count after it, so that the losses of `n` targets add up to
less than half of `n (n + 1)`. -/
theorem two_mul_sum_weightedLoss_le (targets : Nat → Target) (hn : 0 < n) :
    2 * ∑ k ∈ Finset.Ico 1 n, weightedLoss targets k + 2 ≤ n * (n + 1) := by
  induction n, hn using Nat.le_induction with
  | base => simp
  | succ n hn ih =>
    -- The step divides by `n + 2`.
    have hloss : weightedLoss targets n < n + 2 := Nat.mod_lt _ (by omega)
    rw [Finset.sum_Ico_succ_top hn]
    linarith

/-- The weighted average of `n` targets is the mean in which the first of them counts twice, less
what rounding at each step has lost, which is below half of `n (n + 1)` when multiplied by `n + 1`.
It lies between the least and the greatest of the targets. On the way to it no quotient is too great
for a target, so that narrowing never stops at the greatest one. The targets may be in any order and
of any number that can be raised by one as a 64-bit count, as the length of every list in 64-bit
memory can. -/
theorem weighted_average_counts_first_target_twice (targets : Nat → Target) (hn : 0 < n)
    (hcount : n + 1 < 2 ^ 64) :
    (n + 1) * (averageOf weightedAverage targets n).toNat ≤
        2 * (targets 0).toNat + ∑ k ∈ Finset.Ico 1 n, (targets k).toNat ∧
      2 * (targets 0).toNat + ∑ k ∈ Finset.Ico 1 n, (targets k).toNat <
        (n + 1) * (averageOf weightedAverage targets n).toNat + n * (n + 1) / 2 ∧
      (Finset.range n).inf' (Finset.nonempty_range_iff.2 hn.ne') (fun k => (targets k).toNat) ≤
        (averageOf weightedAverage targets n).toNat ∧
      (averageOf weightedAverage targets n).toNat ≤
        (Finset.range n).sup' (Finset.nonempty_range_iff.2 hn.ne') (fun k => (targets k).toNat) ∧
      ∀ k, 0 < k → k < n →
        weightedQuotient (averageOf weightedAverage targets k) (targets k) (.ofNat (k + 1)) ≤
            greatest.widen ∧
          averageOf weightedAverage targets (k + 1) =
            ⟨(weightedQuotient (averageOf weightedAverage targets k) (targets k)
              (.ofNat (k + 1))).setWidth 256⟩ := by
  have hsum := weightedSum_eq targets hn hcount
  have hlosses := two_mul_sum_weightedLoss_le targets hn
  have hrange : (Finset.range n).Nonempty := Finset.nonempty_range_iff.2 hn.ne'
  have hbounds : ∀ k < n,
      (Finset.range n).inf' hrange (fun k => (targets k).toNat) ≤ (targets k).toNat ∧
        (targets k).toNat ≤ (Finset.range n).sup' hrange (fun k => (targets k).toNat) :=
    fun k hk => ⟨Finset.inf'_le _ (Finset.mem_range.2 hk),
      Finset.le_sup' (fun k => (targets k).toNat) (Finset.mem_range.2 hk)⟩
  obtain ⟨hlower, hupper⟩ := averageOf_weightedAverage_mem hn hcount hbounds
  rw [weightedSum] at hsum
  exact ⟨by omega, by omega, hlower, hupper,
    fun k hpos hk => averageOf_succ_eq_quotient targets hpos (by omega)⟩

/-- Over ten targets that fall by one at a time the average follows them down to the last one, and
loses as much as it may. -/
theorem falling_targets_leave_least_average :
    averageOf weightedAverage fallingTargets 10 = .zero ∧
      2 * (fallingTargets 0).toNat + ∑ k ∈ Finset.Ico 1 10, (fallingTargets k).toNat + 1 =
        (10 + 1) * (averageOf weightedAverage fallingTargets 10).toNat + 10 * (10 + 1) / 2 ∧
      2 * (fallingTargets 0).toNat + ∑ k ∈ Finset.Ico 1 10, (fallingTargets k).toNat <
        (10 + 1) * (averageOf weightedAverage fallingTargets 10).toNat + 10 * (10 + 1) / 2 ∧
      weightedQuotient (averageOf weightedAverage fallingTargets 9) (fallingTargets 9) 10 ≤
        greatest.widen := by
  obtain ⟨-, hsum, -, -, hquotient⟩ :=
    weighted_average_counts_first_target_twice fallingTargets (n := 10) (by decide) (by decide)
  exact ⟨by decide +kernel, by decide +kernel, hsum, (hquotient 9 (by decide) (by decide)).1⟩

end HeaderRules.Gravity
