import HeaderRules.Proofs.CheckedGravity
import HeaderRules.Proofs.TolerantRetarget
import HeaderRules.Proofs.Wave3Form

/-!
# The retarget in checked arithmetic

A checked retarget ends in no fault but those of the machine: a missing ancestor, or a stored code
that does not decode. Whatever a chain computes by ratio or in a gravity well, all words on the way
hold the exact numbers, and the last quotient alone may stop at the greatest target. The limit of
the chain lies below that, so that the required target is the exact one
(`machine_arithmetic_is_exact`).
-/

namespace HeaderRules.Checked

open Gravity Outcome

/-! ## The last step of the waves -/

/-- The actual and the expected timespan of the blended block time. They are formed in floating
point, from the exact numbers. -/
def Wave.timespans (s : State) (spacing : UInt32) : Int × Int :=
  let intervals : Gravity.Wave.Intervals := ⟨.ofInt s.intervals.average,
    .ofInt s.intervals.averaged, .ofInt s.intervals.total, .ofInt s.intervals.summed⟩
  let (actual, expected) :=
    Gravity.Wave.timespans ⟨.ofNat s.count.toNat, .zero, intervals, 0⟩ spacing
  (actual.toInt, expected.toInt)

theorem Wave.timespans_exact (s : Gravity.Wave.State) (spacing : UInt32) :
    timespans (exact s) spacing =
      ((Gravity.Wave.timespans s spacing).1.toInt, (Gravity.Wave.timespans s spacing).2.toInt) := by
  simp only [timespans, exact, Intervals.exact, Int64.ofInt_toInt, Int.toNat_natCast,
    UInt64.ofNat_toNat]
  rfl

/-- The target that the last state of a walk gives. -/
def Wave.result (spacing : UInt32) (s : State) : Except Fault Int :=
  if s.intervals.averaged = 0 ∨ s.intervals.summed = 0 then .ok s.average
  else scale s.average (timespans s spacing).1 (timespans s spacing).2

theorem Wave.saturated_result (s : Gravity.Wave.State) (spacing : UInt32) :
    saturated (result spacing (exact s)) =
      .ok (exactTarget (Gravity.Algorithm.result .wave spacing s)) := by
  have hzero (n : Int64) : n.toInt = 0 ↔ n = 0 := by
    rw [← Int64.toInt_inj]
    rfl
  unfold result Gravity.Algorithm.result
  simp only [timespans_exact]
  simp only [exact, Intervals.exact, hzero]
  split_ifs
  · exact saturated_exactTarget s.average
  · exact saturated_scale _ _ _

/-- The actual timespan, between a third and three times the expected one, and the expected one. -/
def Wave3.timespans (s : State) (spacing : UInt32) : Except Fault (Int × Int) := do
  let count ← signed64.fit s.count
  let expected ← signed64.fit (count * spacing.toNat)
  let third ← signed64.quotient expected 3
  let thrice ← signed64.fit (expected * 3)
  return (min (max s.actual third) thrice, expected)

theorem Wave3.timespans_eq {s : Gravity.Wave3.State} (hcount : s.count.toNat ≤ 2 ^ 29)
    (spacing : UInt32) :
    timespans (exact s) spacing =
      .ok ((Gravity.Wave3.limited s.actual (signedCount s.count * seconds spacing)).toInt,
        (signedCount s.count * seconds spacing).toInt) := by
  obtain ⟨hexpected, hnonneg, hle⟩ := seconds_mul_count spacing s.count hcount
  rw [Int.mul_comm, Int64.mul_comm] at hexpected
  rw [Int64.mul_comm] at hnonneg hle
  have hthrice : (signedCount s.count * seconds spacing).toInt * 3 =
      (signedCount s.count * seconds spacing * 3).toInt := by
    rw [Gravity.Wave3.toInt_mul_three hnonneg (by omega), Int.mul_comm]
  simp only [timespans, exact, signed64_fit_count (show s.count.toNat < 2 ^ 63 by omega), ok_bind,
    hexpected, signed64_fit_toInt, hthrice,
    signed64_quotient (toInt_mem_signed64 _) (show (1 : Int) ≤ 3 by decide)]
  rw [Gravity.Wave3.limited, toInt_min, toInt_max, Gravity.Wave3.toInt_div_three]
  rfl

/-- The target that the last state of a walk gives. -/
def Wave3.result (spacing : UInt32) (s : State) : Except Fault Int := do
  let (actual, expected) ← timespans s spacing
  scale s.average actual expected

theorem Wave3.saturated_result {s : Gravity.Wave3.State} (hcount : s.count.toNat ≤ 2 ^ 29)
    (spacing : UInt32) :
    saturated (result spacing (exact s)) =
      .ok (exactTarget (Gravity.Algorithm.result .wave3 spacing s)) := by
  unfold result
  rw [timespans_eq hcount, ok_bind]
  exact saturated_scale _ _ _

/-! ## The three algorithms -/

namespace Algorithm

/-- What an algorithm knows after some blocks. -/
def State : Algorithm → Type
  | .kimoto => Kimoto.State
  | .wave => Wave.State
  | .wave3 => Wave3.State

/-- The numbers of a state of the machine. -/
def exact : (w : Algorithm) → w.State → State w
  | .kimoto => Kimoto.exact
  | .wave => Wave.exact
  | .wave3 => Wave3.exact

/-- Before the first block. -/
def initial : (w : Algorithm) → State w
  | .kimoto => (⟨0, 0, 0, 0⟩ : Kimoto.State)
  | .wave => (⟨0, 0, ⟨0, 0, 0, 0⟩, 0⟩ : Wave.State)
  | .wave3 => (⟨0, 0, 0, 0⟩ : Wave3.State)

/-- Reads one block of a walk that started from a block of the time `newest`. -/
def visit (w : Algorithm) (newest spacing : UInt32) (minimum : UInt64) :
    State w → StoredBlock → Except Fault (Visit (State w)) :=
  match w with
  | .kimoto => Kimoto.visit newest spacing minimum
  | .wave => Wave.visit minimum
  | .wave3 => Wave3.visit minimum

/-- The target that the last state of a walk gives. -/
def result (w : Algorithm) (spacing : UInt32) : State w → Except Fault Int :=
  match w with
  | .kimoto => fun (s : Kimoto.State) => scale s.average s.actual s.expected
  | .wave => Wave.result spacing
  | .wave3 => Wave3.result spacing

/-- The target of the block after `prev`. -/
def target (w : Algorithm) (prev : StoredBlock) (history : History) (spacing : UInt32)
    (window : WindowBounds) (easiest : Target) : Except Fault Int :=
  if tooShort prev window then .ok (exactTarget easiest)
  else do
    let s ← walk (visit w prev.time spacing window.min) history window.limit prev (initial w)
    result w spacing s

/-- What has been summed up after `k` blocks is bounded by their number. -/
def Bounded : (w : Algorithm) → Nat → w.State → Prop
  | .kimoto => Kimoto.Bounded
  | .wave => Wave.Bounded
  | .wave3 => Wave3.Bounded

theorem bounded_initial (w : Algorithm) : Bounded w 0 w.initial := by
  cases w with
  | kimoto => exact ⟨rfl⟩
  | wave =>
    have hinterval : IsInterval 0 := ⟨by decide, by decide⟩
    exact ⟨rfl, ⟨hinterval, by decide, by decide, by decide⟩, by decide, by decide⟩
  | wave3 => exact ⟨rfl, by decide, by decide, by decide⟩

/-- A visit is the one of the machine and keeps the bounds, over at most 2²⁹ blocks. -/
theorem follows (w : Algorithm) (newest spacing : UInt32) {minimum : UInt64}
    (hminimum : minimum.toNat < 2 ^ 63) :
    Follows (visit w newest spacing minimum) (w.visit newest spacing minimum) (exact w) (Bounded w)
      (2 ^ 29) := by
  cases w with
  | kimoto => exact Kimoto.follows newest spacing minimum
  | wave => exact Wave.follows hminimum
  | wave3 => exact Wave3.follows minimum

/-- The target of a state that is bounded by at most 2²⁹ blocks. -/
theorem saturated_result (w : Algorithm) (spacing : UInt32) {k : Nat} (hk : k ≤ 2 ^ 29)
    {s : w.State} (hs : Bounded w k s) :
    saturated (result w spacing (exact w s)) = .ok (exactTarget (w.result spacing s)) := by
  cases w with
  | kimoto => exact saturated_scale _ _ _
  | wave => exact Wave.saturated_result s spacing
  | wave3 => exact Wave3.saturated_result (hs.count.trans_le hk) spacing

section

variable (w : Algorithm) (prev : StoredBlock) (history : History) (spacing : UInt32)
  {window : WindowBounds}

/-- Where there is enough history, the minimum of the window is no greater than a height. -/
theorem min_lt {prev : StoredBlock} (hlong : tooShort prev window = false) :
    window.min.toNat < 2 ^ 63 := by
  have hheight := prev.height.toNat_lt
  rw [← Bool.not_eq_true, Gravity.Algorithm.tooShort_iff] at hlong
  omega

/-- Over at most 2²⁹ blocks the loop of an algorithm goes through exact numbers. -/
theorem walk_eq (hmin : window.min.toNat < 2 ^ 63) {limit : Nat} (hlimit : limit ≤ 2 ^ 29) :
    walk (visit w prev.time spacing window.min) history limit prev (initial w) =
        asExact (exact w)
          (Gravity.walk (w.visit prev.time spacing window.min) history limit prev w.initial) ∧
      ∀ s, Gravity.walk (w.visit prev.time spacing window.min) history limit prev w.initial =
        .ok s → ∃ k ≤ 2 ^ 29, Bounded w k s := by
  have hinitial : initial w = exact w w.initial := by
    cases w <;> rfl
  rw [hinitial]
  exact (follows w prev.time spacing hmin).walk history (by omega) (bounded_initial w) prev

/-- The exact target of an algorithm is the one of the machine, up to the greatest target. -/
theorem saturated_target (easiest : Target)
    (hmax : 0 < window.max.toNat ∧ window.max.toNat ≤ 2 ^ 29) :
    saturated (target w prev history spacing window easiest) =
      asExact exactTarget (w.target prev history spacing window easiest) := by
  have hmax_ne : window.max ≠ 0 := by
    intro hzero
    rw [hzero] at hmax
    exact absurd hmax.1 (by decide)
  have hlimit : window.limit ≤ 2 ^ 29 := (WindowBounds.limit_eq hmax_ne).trans_le hmax.2
  rw [target, w.target_eq]
  by_cases hshort : tooShort prev window = true
  · rw [if_pos hshort, if_pos hshort]
    exact saturated_exactTarget easiest
  · have hmin := min_lt (Bool.eq_false_of_not_eq_true hshort)
    obtain ⟨hwalk, hbounded⟩ := walk_eq w prev history spacing hmin hlimit
    rw [if_neg hshort, if_neg hshort, hwalk]
    cases hrun : Gravity.walk (w.visit prev.time spacing window.min) history window.limit prev
      w.initial with
    | error e => rfl
    | ok s =>
      obtain ⟨k, hk, hs⟩ := hbounded s hrun
      exact saturated_result w spacing hk hs

end

end Algorithm

/-! ## The ratio retarget -/

/-- The measured and limited timespan of the interval that ends at `prev`. -/
def timespan (c : ChainParams) (prev : StoredBlock) (history : History) : Except Fault Int := do
  let start ← asExact id (history.ancestor (c.params.retargetBlockspan prev.height).toNat prev)
  timespanBetween (c.params.timespanClamp prev.height) prev.time start.time
    (c.params.targetTimespanAt prev.height)

/-- The target of `prev` times the ratio of the two timespans. -/
def ratioTarget (c : ChainParams) (prev : StoredBlock) (history : History) :
    Except Fault Int := do
  let timespan ← timespan c prev history
  let old ← asExact exactTarget prev.decodedTarget
  let numerator ← (word 64).fit timespan
  scaled old numerator (c.params.targetTimespanAt prev.height).toNat

section

variable {c : ChainParams} {prev : StoredBlock}
  (hclamp : (c.params.timespanClamp prev.height).Moderate) (history : History)

include hclamp

theorem timespan_eq :
    timespan c prev history = asExact Int64.toInt (c.timespan prev history) := by
  unfold timespan ChainParams.timespan
  cases history.ancestor (c.params.retargetBlockspan prev.height).toNat prev with
  | error e => rfl
  | ok start => exact timespanBetween_eq hclamp _ _ _

/-- The exact target of a ratio retarget is the one of the machine, up to the greatest target. -/
theorem saturated_ratioTarget :
    saturated (ratioTarget c prev history) =
      asExact exactTarget (c.ratioTarget prev history) := by
  rw [ratioTarget, ChainParams.ratioTarget, timespan_eq hclamp]
  cases htimespan : c.timespan prev history with
  | error e => rfl
  | ok timespan =>
    -- The limits let through no negative timespan.
    obtain ⟨start, -, hexact⟩ := ChainParams.toInt_timespan hclamp.positive htimespan
    have hnonneg : 0 ≤ timespan.toInt := by
      rw [hexact]
      exact TimespanClamp.exact_nonneg hclamp.positive _ (Int.natCast_nonneg _)
    have hnumerator : timespan.toInt = ((unsignedCount? timespan).getD 0).toNat := by
      rw [toNat_unsignedCount]
      omega
    have hdenominator : (c.params.targetTimespanAt prev.height).toNat =
        (c.params.targetTimespanAt prev.height).toUInt64.toNat := by
      rw [UInt32.toNat_toUInt64]
    rw [asExact_ok, ok_bind, ok_bind]
    cases prev.decodedTarget with
    | error e => rfl
    | ok old =>
      rw [asExact_ok, ok_bind, ok_bind, hnumerator, word_fit_toNat, ok_bind, hdenominator,
        saturated_scaled]
      rfl

end

/-! ## The required target -/

/-- The target that the strategy of the chain computes for the block after `prev`. -/
def computedTarget (c : ChainParams) (prev : StoredBlock) (history : History) : Except Fault Int :=
  match c.params.retarget with
  | .fixed => ratioTarget c prev history
  | .varying .. => ratioTarget c prev history
  | .gravityWell schedule =>
    let spacing := c.params.targetSpacing
    match schedule.phase (nextHeight prev.height) with
    | .ratio => ratioTarget c prev history
    | .kimotoGravityWell =>
      Algorithm.target .kimoto prev history spacing schedule.kgwWindow c.maxTarget
    | .darkGravityWave =>
      Algorithm.target .wave prev history spacing schedule.dgwWindow c.maxTarget
    | .darkGravityWave3 =>
      Algorithm.target .wave3 prev history spacing schedule.dgw3Window c.maxTarget

/-- The target that the block after `prev` must have. -/
def requiredTarget (c : ChainParams) (prev : StoredBlock) (history : History) : Except Fault Int :=
  (computedTarget c prev history).map fun target =>
    if target > exactTarget c.maxTarget then exactTarget c.maxTarget else target

section

variable {c : ChainParams} {prev : StoredBlock}
  (hclamp : (c.params.timespanClamp prev.height).Moderate)
  (hwindow : ∀ window, c.params.window? (nextHeight prev.height) = some window →
    0 < window.max.toNat ∧ window.max.toNat ≤ 2 ^ 29)
  (history : History)

include hclamp hwindow

theorem saturated_computedTarget :
    saturated (computedTarget c prev history) =
      asExact exactTarget (c.computedTarget prev history) := by
  unfold computedTarget ChainParams.computedTarget
  cases hretarget : c.params.retarget with
  | fixed => exact saturated_ratioTarget hclamp history
  | varying => exact saturated_ratioTarget hclamp history
  | gravityWell schedule =>
    simp only [Params.window?, hretarget] at hwindow
    cases hphase : schedule.phase (nextHeight prev.height) with
    | ratio =>
      simp only [hphase]
      exact saturated_ratioTarget hclamp history
    | kimotoGravityWell =>
      simp only [hphase]
      exact Algorithm.saturated_target .kimoto _ _ _ _ (hwindow _ (by rw [hphase]))
    | darkGravityWave =>
      simp only [hphase]
      exact Algorithm.saturated_target .wave _ _ _ _ (hwindow _ (by rw [hphase]))
    | darkGravityWave3 =>
      simp only [hphase]
      exact Algorithm.saturated_target .wave3 _ _ _ _ (hwindow _ (by rw [hphase]))

/-- The limit of the chain is below the greatest target, at which the machine stops. -/
theorem requiredTarget_eq :
    requiredTarget c prev history = asExact exactTarget (c.requiredTarget prev history) := by
  have hcomputed := saturated_computedTarget hclamp hwindow history
  have hmax := mem_word_iff.1 (exactTarget_mem c.maxTarget)
  unfold requiredTarget ChainParams.requiredTarget
  cases htarget : c.computedTarget prev history with
  | error e =>
    rw [htarget] at hcomputed
    rw [map_eq_error_iff.1 hcomputed]
    rfl
  | ok t =>
    rw [htarget] at hcomputed
    obtain ⟨exact, hexact, hlimited⟩ := map_eq_ok_iff.1 hcomputed
    have hgt : t > c.maxTarget ↔ exactTarget t > exactTarget c.maxTarget := Int.ofNat_lt.symm
    rw [hexact]
    refine congrArg Except.ok ?_
    show (if exact > exactTarget c.maxTarget then exactTarget c.maxTarget else exact) =
      exactTarget (if t > c.maxTarget then c.maxTarget else t)
    simp only [hgt, apply_ite exactTarget]
    split_ifs <;> omega

end

/-- Let the limits of a chain have constants from 1 to 2¹⁶, and its windows a maximum from 1 to 2²⁹.
Then the integer arithmetic of its retarget is exact: each of the following is computed over the
integers, where a result that does not fit into its word and a division by zero would be faults, and
has the value that the machine has. These are the limited timespan between any two times and that of
a retarget, the pause of the test network rule, the loop of each gravity-well algorithm after any
number of blocks, whatever their times are, and the timespans of the third wave. The targets
computed from them agree up to the greatest one, at which the last quotient of the machine stops,
and the required target, which the chain limits, agrees altogether. In particular its only faults
are a missing ancestor and a stored code that does not decode, and none is one of arithmetic. -/
theorem machine_arithmetic_is_exact {c : ChainParams} {prev : StoredBlock}
    (hclamp : (c.params.timespanClamp prev.height).Moderate)
    (hwindow : ∀ window, c.params.window? (nextHeight prev.height) = some window →
      0 < window.max.toNat ∧ window.max.toNat ≤ 2 ^ 29) (next : Header) (history : History) :
    (∀ clamp newest oldest target, TimespanClamp.Moderate clamp →
      timespanBetween clamp newest oldest target =
        .ok (clamp.apply (satSub64 (seconds newest) (seconds oldest)) (seconds target)).toInt) ∧
    timespan c prev history = asExact Int64.toInt (c.timespan prev history) ∧
    isLongPause c prev next = .ok (c.isLongPause prev next) ∧
    (∀ (w : Algorithm) (spacing : UInt32) (window : WindowBounds) (limit : Nat),
      tooShort prev window = false → limit ≤ 2 ^ 29 →
      walk (Algorithm.visit w prev.time spacing window.min) history limit prev
          (Algorithm.initial w) =
        asExact (Algorithm.exact w)
          (Gravity.walk (w.visit prev.time spacing window.min) history limit prev w.initial)) ∧
    (∀ (s : Gravity.Wave3.State) (spacing : UInt32), s.count.toNat ≤ 2 ^ 29 →
      Wave3.timespans (Wave3.exact s) spacing =
        .ok ((Gravity.Wave3.limited s.actual (signedCount s.count * seconds spacing)).toInt,
          (signedCount s.count * seconds spacing).toInt)) ∧
    (∀ (w : Algorithm) (spacing : UInt32) (window : WindowBounds) (easiest : Target),
      0 < window.max.toNat ∧ window.max.toNat ≤ 2 ^ 29 →
      saturated (Algorithm.target w prev history spacing window easiest) =
        asExact exactTarget (w.target prev history spacing window easiest)) ∧
    saturated (ratioTarget c prev history) = asExact exactTarget (c.ratioTarget prev history) ∧
    requiredTarget c prev history = asExact exactTarget (c.requiredTarget prev history) ∧
    ∀ fault, requiredTarget c prev history = .error fault →
      ∃ cause, c.requiredTarget prev history = .error cause ∧ fault = .verification cause := by
  have hrequired := requiredTarget_eq hclamp hwindow history
  refine ⟨fun clamp newest oldest target hmoderate => ?_, timespan_eq hclamp history,
    isLongPause_eq c prev next, fun w spacing window limit hlong hlimit => ?_,
    fun s spacing hcount => Wave3.timespans_eq hcount spacing,
    fun w spacing window easiest hmax => ?_, saturated_ratioTarget hclamp history, hrequired,
    fun fault hfault => ?_⟩
  · exact timespanBetween_eq hmoderate newest oldest target
  · exact (Algorithm.walk_eq w prev history spacing (Algorithm.min_lt hlong) hlimit).1
  · exact Algorithm.saturated_target w prev history spacing easiest hmax
  · rw [hrequired] at hfault
    exact exists_cause_of_asExact hfault

open ChainParams in
/-- The third of a target that a lone block leads to and a retarget of Dogecoin after two minutes
are exact. -/
theorem lone_block_and_long_gap_are_exact :
    requiredTarget gravityDogecoin (waveTip ⟨0x1e0ffffe⟩) (fun _ => none) =
        .ok (0x0ffffe * 256 ^ 27 / 3) ∧
      requiredTarget dogecoin (gapTip ⟨0x1c00ffff⟩ 120) (gapHistory ⟨0x1c00ffff⟩) =
        .ok (0xffff * 256 ^ 25 * 67 / 60) := by
  constructor
  · have hclamp : (gravityDogecoin.params.timespanClamp
        (waveTip ⟨0x1e0ffffe⟩).height).Moderate := by
      show (1 ≤ (4 : Int64).toInt ∧ (4 : Int64).toInt ≤ 2 ^ 16) ∧ _
      decide
    have hwindow (window : WindowBounds) (h : gravityDogecoin.params.window?
        (nextHeight (waveTip ⟨0x1e0ffffe⟩).height) = some window) :
        0 < window.max.toNat ∧ window.max.toNat ≤ 2 ^ 29 := by
      obtain rfl : (⟨24, 24⟩ : WindowBounds) = window := Option.some.inj h
      decide
    have ht : gravityDogecoin.requiredTarget (waveTip ⟨0x1e0ffffe⟩) (fun _ => none) =
        .ok (.ofNat (0x0ffffe * 256 ^ 27 / 3)) := by decide +kernel
    obtain ⟨-, -, -, -, -, -, -, hrequired, -⟩ := machine_arithmetic_is_exact hclamp hwindow
      (bareHeader 1400000000 ⟨0x1e0ffffe⟩) fun _ => none
    rw [hrequired, ht]
    rfl
  · have hclamp : (dogecoin.params.timespanClamp (gapTip ⟨0x1c00ffff⟩ 120).height).Moderate := by
      show 1 ≤ (8 : Int64).toInt ∧ (8 : Int64).toInt ≤ 2 ^ 16
      decide
    have hwindow (window : WindowBounds) (h : dogecoin.params.window?
        (nextHeight (gapTip ⟨0x1c00ffff⟩ 120).height) = some window) :
        0 < window.max.toNat ∧ window.max.toNat ≤ 2 ^ 29 := nomatch h
    have ht : dogecoin.requiredTarget (gapTip ⟨0x1c00ffff⟩ 120) (gapHistory ⟨0x1c00ffff⟩) =
        .ok (.ofNat (0xffff * 256 ^ 25 * 67 / 60)) := by decide +kernel
    obtain ⟨-, -, -, -, -, -, -, hrequired, -⟩ := machine_arithmetic_is_exact hclamp hwindow
      (bareHeader 1400000000 ⟨0x1c00ffff⟩) (gapHistory ⟨0x1c00ffff⟩)
    rw [hrequired, ht]
    rfl

end HeaderRules.Checked
