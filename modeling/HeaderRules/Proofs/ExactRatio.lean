import HeaderRules.Proofs.GravityWalk
import HeaderRules.Proofs.RatioRetarget
import HeaderRules.Proofs.StrictRetarget

/-!
# The ratio retarget as one formula

A ratio retarget walks back over its interval, measures and limits a timespan in 64 bits, scales a
target in 512 bits and limits the result. None of these steps shows: over the integers the required
target is the old one times the limited timespan over the target timespan, rounded down, and at most
the easiest target (`ratio_retarget_is_exact`). It fails for two reasons only, which are looked for
in this order: a block on the way back is missing, or the previous block has a code that does not
decode. Of all other blocks only the time of the one where the interval starts is read.
-/

namespace HeaderRules

open Outcome

/-! ## Limits without bounds on the integers -/

/-- A sum that stays in the 64-bit range is exact. -/
theorem toInt_add_of_mem {a b : Int64} (hlow : -0x8000000000000000 ≤ a.toInt + b.toInt)
    (hhigh : a.toInt + b.toInt ≤ 0x7fffffffffffffff) : (a + b).toInt = a.toInt + b.toInt := by
  rw [Int64.toInt_add]
  exact Int.bmod_eq_of_le (by omega) (by omega)

/-- A difference that stays in the 64-bit range is exact. -/
theorem toInt_sub_of_mem {a b : Int64} (hlow : -0x8000000000000000 ≤ a.toInt - b.toInt)
    (hhigh : a.toInt - b.toInt ≤ 0x7fffffffffffffff) : (a - b).toInt = a.toInt - b.toInt := by
  rw [Int64.toInt_sub]
  exact Int.bmod_eq_of_le (by omega) (by omega)

namespace TimespanClamp

variable {clamp : TimespanClamp}

/-- The constants of the limits are at least one. -/
def Positive : TimespanClamp → Prop
  | ratio minDivisor maxMultiplier => 1 ≤ minDivisor.toInt ∧ 1 ≤ maxMultiplier.toInt
  | dampened dampening => 1 ≤ dampening.toInt

/-- A timespan moved into the limits around the target, over the integers. -/
def exact : TimespanClamp → Int → Int → Int
  | ratio minDivisor maxMultiplier, timespan, target =>
    min (max timespan (target.tdiv minDivisor.toInt)) (target * maxMultiplier.toInt)
  | dampened dampening, timespan, target =>
    min (max (target + (timespan - target).tdiv dampening.toInt) (target - target.tdiv 4))
      (target + target.tdiv 2)

theorem exact_nonneg (hclamp : clamp.Positive) (timespan : Int) {target : Int}
    (htarget : 0 ≤ target) : 0 ≤ clamp.exact timespan target := by
  cases clamp with
  | ratio minDivisor maxMultiplier =>
    obtain ⟨hdivisor, hmultiplier⟩ := hclamp
    have hlow : 0 ≤ target.tdiv minDivisor.toInt := Int.tdiv_nonneg htarget (by omega)
    have hhigh : 0 ≤ target * maxMultiplier.toInt := Int.mul_nonneg htarget (by omega)
    rw [exact]
    omega
  | dampened dampening =>
    have hquarter := Int.tdiv_eq_ediv_of_nonneg (b := 4) htarget
    have hhalf := Int.tdiv_eq_ediv_of_nonneg (b := 2) htarget
    rw [exact, hquarter, hhalf]
    omega

/-- A 32-bit target moved by a dampened deviation, in exact arithmetic. -/
theorem toInt_apply_dampened {dampening timespan : Int64} (hdampening : 1 ≤ dampening.toInt)
    (hlow : -0x100000000 < timespan.toInt) (hhigh : timespan.toInt < 0x100000000)
    (target : UInt32) :
    ((dampened dampening).apply timespan (seconds target)).toInt =
      (dampened dampening).exact timespan.toInt target.toNat := by
  have htarget := target.toNat_lt
  have hseconds := toInt_seconds target
  have hdeviation : (timespan - seconds target).toInt = timespan.toInt - target.toNat := by
    rw [toInt_sub_of_mem (by omega) (by omega), hseconds]
  have hmoved : ((timespan - seconds target) / dampening).toInt =
      (timespan.toInt - target.toNat).tdiv dampening.toInt := by
    have hdivisor : dampening ≠ -1 := by
      rintro rfl
      exact absurd hdampening (by decide)
    rw [Int64.toInt_div_of_ne_right _ _ hdivisor, hdeviation]
  have hquarter : (seconds target / 4).toInt = (target.toNat : Int).tdiv 4 := by
    rw [Int.tdiv_eq_ediv_of_nonneg (by omega)]
    exact toInt_seconds_div target (by decide)
  have hhalf : (seconds target / 2).toInt = (target.toNat : Int).tdiv 2 := by
    rw [Int.tdiv_eq_ediv_of_nonneg (by omega)]
    exact toInt_seconds_div target (by decide)
  -- No quotient is farther from zero than what is divided, so no sum leaves its range.
  have hmoved_small := Int.natAbs_tdiv_le_natAbs (timespan.toInt - target.toNat) dampening.toInt
  have hquarter_small := Int.natAbs_tdiv_le_natAbs target.toNat 4
  have hhalf_small := Int.natAbs_tdiv_le_natAbs target.toNat 2
  have hsum := toInt_add_of_mem (a := seconds target)
    (b := (timespan - seconds target) / dampening) (by omega) (by omega)
  have hleast := toInt_sub_of_mem (a := seconds target) (b := seconds target / 4) (by omega)
    (by omega)
  have hgreatest := toInt_add_of_mem (a := seconds target) (b := seconds target / 2) (by omega)
    (by omega)
  show (min (max (seconds target + (timespan - seconds target) / dampening)
    (seconds target - seconds target / 4)) (seconds target + seconds target / 2)).toInt = _
  rw [toInt_min, toInt_max, hsum, hleast, hgreatest, hmoved, hquarter, hhalf, hseconds, exact]

/-- Between 32-bit times the limits are exact. -/
theorem toInt_apply (hclamp : clamp.Positive) {timespan : Int64}
    (hlow : -0x100000000 < timespan.toInt) (hhigh : timespan.toInt < 0x100000000)
    (target : UInt32) :
    (clamp.apply timespan (seconds target)).toInt =
      clamp.exact timespan.toInt target.toNat := by
  cases clamp with
  | ratio minDivisor maxMultiplier =>
    obtain ⟨hdivisor, hmultiplier⟩ := hclamp
    have htarget := target.toNat_lt
    have hle : (target.toNat : Int) / minDivisor.toInt ≤ target.toNat :=
      Int.ediv_le_self _ (by omega)
    rw [toInt_apply_ratio (by omega) (by omega), exact,
      Int.tdiv_eq_ediv_of_nonneg (by omega)]
    omega
  | dampened dampening => exact toInt_apply_dampened hclamp hlow hhigh target

end TimespanClamp

/-! ## The way back -/

/-- A history in which every block has the code that is given for it. -/
def History.recode (history : History) (code : StoredBlock → CompactTarget) : History :=
  fun hash => (history hash).map fun b => { b with header := { b.header with bits := code b } }

/-- The codes of the blocks on the way back do not matter to how far it leads and when that was. -/
theorem History.time_ancestor_recode (history : History) (code : StoredBlock → CompactTarget)
    (k : Nat) {a b : StoredBlock} (htime : a.time = b.time) (hheight : a.height = b.height)
    (hprev : a.prevBlockHash = b.prevBlockHash) :
    ((history.recode code).ancestor k a).map StoredBlock.time =
      (history.ancestor k b).map StoredBlock.time := by
  induction k generalizing a b with
  | zero => exact congrArg Except.ok htime
  | succ k ih =>
    rw [ancestor, ancestor, parent, parent, recode, hprev, hheight]
    cases history b.prevBlockHash with
    | none => rfl
    | some p => exact ih rfl rfl rfl

namespace ChainParams

variable {c : ChainParams} {prev start : StoredBlock} {history : History} {old : Target}

/-! ## The limited timespan -/

/-- The timespan runs from the block where the interval starts to the previous one, and is limited
over the integers. -/
theorem toInt_timespan (hclamp : (c.params.timespanClamp prev.height).Positive) {timespan : Int64}
    (h : c.timespan prev history = .ok timespan) :
    ∃ start, history.ancestor (c.params.retargetBlockspan prev.height).toNat prev = .ok start ∧
      timespan.toInt = (c.params.timespanClamp prev.height).exact
        (prev.time.toNat - start.time.toNat) (c.params.targetTimespanAt prev.height).toNat := by
  obtain ⟨start, hstart, hlimited⟩ := timespan_eq_ok_iff.1 h
  have := prev.time.toNat_lt
  have := start.time.toNat_lt
  have hmeasured := toInt_satSub64_seconds prev.time start.time
  refine ⟨start, hstart, ?_⟩
  rw [← hlimited, TimespanClamp.toInt_apply hclamp (by omega) (by omega), hmeasured]

/-! ## Failures -/

theorem timespan_eq_error_iff {e : VerificationError} :
    c.timespan prev history = .error e ↔
      history.ancestor (c.params.retargetBlockspan prev.height).toNat prev = .error e := by
  rw [timespan_eq_map, map_eq_error_iff, map_eq_error_iff]

/-- A ratio retarget fails on the way back, or then on the code of the previous block. -/
theorem ratioTarget_eq_error_iff {e : VerificationError} :
    c.ratioTarget prev history = .error e ↔
      history.ancestor (c.params.retargetBlockspan prev.height).toNat prev = .error e ∨
        ∃ start, history.ancestor (c.params.retargetBlockspan prev.height).toNat prev = .ok start ∧
          prev.target? = none ∧ e = .invalidStoredTarget prev.bits prev.height := by
  rw [ratioTarget, bind_eq_error_iff, timespan_eq_error_iff]
  refine or_congr_right ⟨?_, ?_⟩
  · rintro ⟨timespan, htimespan, h⟩
    obtain ⟨start, hstart, -⟩ := timespan_eq_ok_iff.1 htimespan
    rcases bind_eq_error_iff.1 h with hold | ⟨old, -, hnothing⟩
    · exact ⟨start, hstart, StoredBlock.decodedTarget_eq_error_iff.1 hold⟩
    · exact nomatch hnothing
  · rintro ⟨start, hstart, hold⟩
    exact ⟨_, timespan_eq_ok_iff.2 ⟨start, hstart, rfl⟩,
      bind_eq_error_iff.2 (.inl (StoredBlock.decodedTarget_eq_error_iff.2 hold))⟩

/-! ## The formula -/

/-- Where a ratio retarget is in force, the required target is its result up to the maximum. -/
theorem requiredTarget_of_no_window
    (hratio : c.params.window? (nextHeight prev.height) = none) (history : History) :
    c.requiredTarget prev history = (c.ratioTarget prev history).map fun target =>
      if target > c.maxTarget then c.maxTarget else target := by
  rw [requiredTarget, computedTarget_of_no_window hratio]

/-- Between two stored blocks a ratio retarget scales the old target by the exact timespan. -/
theorem exists_ratioTarget (hclamp : (c.params.timespanClamp prev.height).Positive)
    (hpos : 0 < (c.params.targetTimespanAt prev.height).toNat)
    (hstart : history.ancestor (c.params.retargetBlockspan prev.height).toNat prev = .ok start)
    (hold : prev.target? = some old) :
    ∃ t, c.ratioTarget prev history = .ok t ∧
      t.toNat = min (old.toNat * ((c.params.timespanClamp prev.height).exact
        (prev.time.toNat - start.time.toNat)
        (c.params.targetTimespanAt prev.height).toNat).toNat /
          (c.params.targetTimespanAt prev.height).toNat) (2 ^ 256 - 1) := by
  obtain ⟨t, ht⟩ | ⟨e, he⟩ := ok_or_error (c.ratioTarget prev history)
  swap
  · -- Nothing is missing and the code decodes.
    rcases ratioTarget_eq_error_iff.1 he with hmissing | ⟨_, -, hnone, -⟩
    · exact nomatch hstart.symm.trans hmissing
    · exact nomatch hold.symm.trans hnone
  obtain ⟨timespan, old', htimespan, hold', hvalue⟩ := toNat_of_ratioTarget hpos ht
  obtain rfl := Option.some.inj (hold.symm.trans hold')
  obtain ⟨start', hstart', hexact⟩ := toInt_timespan hclamp htimespan
  obtain rfl := Except.ok.inj (hstart.symm.trans hstart')
  exact ⟨t, ht, hexact ▸ hvalue⟩

/-- Let a ratio retarget be in force after `prev`, with limits whose constants are at least one and
a positive target timespan. If the way back over the interval is stored and the previous block has a
target, the required target is that times the limited timespan over the target timespan, rounded
down, and at most the maximum, all of it over the integers. Otherwise it fails: at the first block
on the way whose parent is missing, whatever the codes are, and only then at a code of the previous
block that does not decode. The codes of other blocks have no effect. -/
theorem ratio_retarget_is_exact
    (hratio : c.params.window? (nextHeight prev.height) = none)
    (hclamp : (c.params.timespanClamp prev.height).Positive)
    (hpos : 0 < (c.params.targetTimespanAt prev.height).toNat) (history : History) :
    (∀ start old,
      history.ancestor (c.params.retargetBlockspan prev.height).toNat prev = .ok start →
      prev.target? = some old →
      ∃ t, c.requiredTarget prev history = .ok t ∧
        (t.toNat : Int) = min (c.maxTarget.toNat : Int)
          (old.toNat * (c.params.timespanClamp prev.height).exact
            (prev.time.toNat - start.time.toNat) (c.params.targetTimespanAt prev.height).toNat /
              (c.params.targetTimespanAt prev.height).toNat)) ∧
    (∀ e, c.requiredTarget prev history = .error e ↔
      (∃ k < (c.params.retargetBlockspan prev.height).toNat, ∃ a,
        history.ancestor k prev = .ok a ∧ history a.prevBlockHash = none ∧
          e = .missingAncestor a.prevBlockHash (satSub a.height 1)) ∨
      ∃ start, history.ancestor (c.params.retargetBlockspan prev.height).toNat prev = .ok start ∧
        prev.target? = none ∧ e = .invalidStoredTarget prev.bits prev.height) ∧
    ∀ code, c.requiredTarget prev (history.recode code) = c.requiredTarget prev history := by
  refine ⟨fun start old hstart hold => ?_, fun e => ?_, fun code => ?_⟩
  · obtain ⟨t, ht, hvalue⟩ := exists_ratioTarget hclamp hpos hstart hold
    rw [requiredTarget_of_no_window hratio, ht]
    refine ⟨_, rfl, ?_⟩
    have hlimit : (if t > c.maxTarget then c.maxTarget else t).toNat =
        min c.maxTarget.toNat t.toNat := by
      split_ifs with h
      · exact (Nat.min_eq_left (Nat.le_of_lt h)).symm
      · exact (Nat.min_eq_right (Nat.le_of_not_lt h)).symm
    have hnonneg := TimespanClamp.exact_nonneg hclamp (prev.time.toNat - start.time.toNat)
      (Int.natCast_nonneg (c.params.targetTimespanAt prev.height).toNat)
    rw [hlimit, hvalue, ← Int.toNat_of_nonneg hnonneg, ← Int.natCast_mul, ← Int.natCast_ediv]
    -- The greatest target is beyond the maximum.
    have hmax := c.maxTarget.toNat_lt
    rw [Int.toNat_natCast]
    omega
  · rw [requiredTarget_of_no_window hratio, map_eq_error_iff, ratioTarget_eq_error_iff,
      History.ancestor_eq_error_iff]
  · rw [requiredTarget_of_no_window hratio, requiredTarget_of_no_window hratio, ratioTarget,
      ratioTarget, timespan_eq_map, timespan_eq_map,
      history.time_ancestor_recode code _ rfl rfl rfl]

/-- Ten minutes back in time count for Dogecoin as three quarters of a minute. -/
theorem dogecoin_requires_three_quarters_after_step_back :
    dogecoin.requiredTarget (gapTip ⟨0x1c00ffff⟩ (0 - 600)) (gapHistory ⟨0x1c00ffff⟩) =
      .ok (.ofNat (0xbfff40 * 256 ^ 24)) := by
  have hclamp : (dogecoin.params.timespanClamp
      (gapTip ⟨0x1c00ffff⟩ (0 - 600)).height).Positive := by
    show 1 ≤ (8 : Int64).toInt
    decide
  have hratio : dogecoin.params.window? (nextHeight (gapTip ⟨0x1c00ffff⟩ (0 - 600)).height) =
    none := rfl
  obtain ⟨hformula, -⟩ := ratio_retarget_is_exact hratio hclamp (by decide +kernel)
    (gapHistory ⟨0x1c00ffff⟩)
  obtain ⟨t, ht, hvalue⟩ := hformula (gapParent ⟨0x1c00ffff⟩) (.ofNat (0xffff * 256 ^ 25)) rfl
    (by decide +kernel)
  have hscaled : (t.toNat : Int) = (Target.ofNat (0xbfff40 * 256 ^ 24)).toNat :=
    hvalue.trans (by decide +kernel)
  rw [ht, Target.toNat_inj.1 (Int.ofNat.inj hscaled)]

end ChainParams

end HeaderRules
