import HeaderRules.Proofs.CheckedArithmetic
import HeaderRules.Proofs.RunningAverage

/-!
# Checked averages of targets

The averages of the gravity wells in checked arithmetic, formed in words of 256 and 512 bits, and
the last step of every algorithm, the scaling of a target by a ratio. No step of an average leaves
its word, and no divisor is zero (`computes_incrementalAverage`, `computes_weightedAverage`). Of a
scaling the last quotient alone may be too great for a target. The machine then stops at the
greatest one (`saturated_scaled`).
-/

namespace HeaderRules

namespace Gravity

/-! ## Taking a block in -/

/-- The average that takes in the target of one more block, the `count`-th. -/
def takeIn (combine : Target → Target → UInt64 → Target) (count : UInt64) (average : Target)
    (b : StoredBlock) : Except VerificationError Target :=
  b.decodedTarget.map fun target => if count = 1 then target else combine average target count

/-- The average that takes in the target of one more block if that is among the newest. -/
def takeInNewest (combine : Target → Target → UInt64 → Target) (newest count : UInt64)
    (average : Target) (b : StoredBlock) : Except VerificationError Target :=
  if count ≤ newest then takeIn combine count average b else .ok average

end Gravity

namespace Checked

open Gravity Outcome

/-! ## Averages of targets -/

/-- The number of a target. -/
def exactTarget (t : Target) : Int := t.toNat

theorem exactTarget_mem (t : Target) : exactTarget t ∈ word 256 :=
  mem_word_iff.2 ⟨Int.natCast_nonneg _, Int.ofNat_lt.2 t.toNat_lt⟩

/-- Moves an average toward a target by the distance between them over `count`. -/
def incrementalAverage (average target count : Int) : Except Fault Int :=
  if count = 0 then .ok target
  else if average ≤ target then do
    let distance ← (word 256).fit (target - average)
    let part ← (word 256).quotient distance count
    (word 256).fit (average + part)
  else do
    let distance ← (word 256).fit (average - target)
    let part ← (word 256).quotient distance count
    (word 256).fit (average - part)

/-- The mean of `count` times an average and one target. -/
def weightedAverage (average target count : Int) : Except Fault Int := do
  let product ← (word 512).fit (average * count)
  let total ← (word 512).fit (product + target)
  let number ← (word 64).fit (count + 1)
  let mean ← (word 512).quotient total number
  (word 256).fit mean

/-- A checked recurrence has the values of one of the machine as long as the count can be raised. -/
def Computes (checked : Int → Int → Int → Except Fault Int)
    (combine : Target → Target → UInt64 → Target) : Prop :=
  ∀ average target (count : UInt64), count.toNat + 1 < 2 ^ 64 →
    checked (exactTarget average) (exactTarget target) count.toNat =
      .ok (exactTarget (combine average target count))

theorem computes_incrementalAverage :
    Computes incrementalAverage Gravity.incrementalAverage := by
  intro average target count _
  have haverage := mem_word_iff.1 (exactTarget_mem average)
  have htarget := mem_word_iff.1 (exactTarget_mem target)
  rcases Nat.eq_zero_or_pos count.toNat with hzero | hpos
  · obtain rfl : count = 0 := UInt64.toNat_inj.1 hzero
    rfl
  · have hcount : (1 : Int) ≤ count.toNat := by omega
    have hresult : exactTarget (Gravity.incrementalAverage average target count) =
        exactTarget average + (exactTarget target - exactTarget average).tdiv count.toNat :=
      toNat_incrementalAverage average target hpos
    have hmoved := exactTarget_mem (Gravity.incrementalAverage average target count)
    rw [incrementalAverage, if_neg (by omega)]
    by_cases hle : exactTarget average ≤ exactTarget target
    · have hdistance : exactTarget target - exactTarget average ∈ word 256 :=
        mem_word_iff.2 (by omega)
      rw [if_pos hle, Range.fit_of_mem hdistance, ok_bind, word_quotient hdistance hcount, ok_bind,
        ← hresult, Range.fit_of_mem hmoved]
    · have hdistance : exactTarget average - exactTarget target ∈ word 256 :=
        mem_word_iff.2 (by omega)
      rw [← Int.neg_sub (exactTarget average), Int.neg_tdiv, ← Int.sub_eq_add_neg] at hresult
      rw [if_neg hle, Range.fit_of_mem hdistance, ok_bind, word_quotient hdistance hcount, ok_bind,
        ← hresult, Range.fit_of_mem hmoved]

theorem computes_weightedAverage : Computes weightedAverage Gravity.weightedAverage := by
  intro average target count hraise
  have haverage := mem_word_iff.1 (exactTarget_mem average)
  have htarget := mem_word_iff.1 (exactTarget_mem target)
  have hproduct_le : exactTarget average * count.toNat ≤ 2 ^ 256 * 2 ^ 64 :=
    Int.mul_le_mul haverage.2.le (by omega) (by omega) (by decide)
  have hproduct_nonneg : 0 ≤ exactTarget average * count.toNat :=
    Int.mul_nonneg haverage.1 (by omega)
  have hproduct : exactTarget average * count.toNat ∈ word 512 := mem_word_iff.2 (by omega)
  have htotal : exactTarget average * count.toNat + exactTarget target ∈ word 512 :=
    mem_word_iff.2 (by omega)
  have hnumber : (count.toNat + 1 : Int) ∈ word 64 := mem_word_iff.2 (by omega)
  have hmean : (exactTarget average * count.toNat + exactTarget target).tdiv (count.toNat + 1) =
      exactTarget (Gravity.weightedAverage average target count) := by
    rw [Int.tdiv_eq_ediv_of_nonneg (by omega), exactTarget, exactTarget, exactTarget,
      toNat_weightedAverage average target hraise]
    rfl
  simp only [weightedAverage, Range.fit_of_mem hproduct, Range.fit_of_mem htotal,
    Range.fit_of_mem hnumber, word_quotient htotal (show (1 : Int) ≤ count.toNat + 1 by omega),
    hmean, Range.fit_of_mem (exactTarget_mem _), ok_bind]

section

variable {checked : Int → Int → Int → Except Fault Int}
  {combine : Target → Target → UInt64 → Target}

/-- The average that takes in the target of one more block, the `count`-th. -/
def takeIn (combine : Int → Int → Int → Except Fault Int) (count average : Int)
    (b : StoredBlock) : Except Fault Int := do
  let target ← asExact exactTarget b.decodedTarget
  if count = 1 then return target else combine average target count

theorem takeIn_eq (hcomputes : Computes checked combine) {count : UInt64}
    (hraise : count.toNat + 1 < 2 ^ 64) (average : Target) (b : StoredBlock) :
    takeIn checked count.toNat (exactTarget average) b =
      asExact exactTarget (Gravity.takeIn combine count average b) := by
  have hone : (count.toNat : Int) = 1 ↔ count = 1 := by
    rw [← UInt64.toNat_inj, UInt64.toNat_one]
    omega
  unfold takeIn Gravity.takeIn
  cases b.decodedTarget with
  | error e => rfl
  | ok target =>
    rw [asExact_ok, ok_bind]
    by_cases hfirst : count = 1
    · rw [if_pos (hone.2 hfirst)]
      exact congrArg (asExact exactTarget ∘ .ok) (if_pos hfirst).symm
    · rw [if_neg (mt hone.1 hfirst), hcomputes average target count hraise]
      exact congrArg (asExact exactTarget ∘ .ok) (if_neg hfirst).symm

/-- The average that takes in the target of one more block if that is among the newest. -/
def takeInNewest (combine : Int → Int → Int → Except Fault Int) (newest count average : Int)
    (b : StoredBlock) : Except Fault Int :=
  if count ≤ newest then takeIn combine count average b else .ok average

theorem takeInNewest_eq (hcomputes : Computes checked combine) {newest count : UInt64}
    (hraise : count.toNat + 1 < 2 ^ 64) (average : Target) (b : StoredBlock) :
    takeInNewest checked newest.toNat count.toNat (exactTarget average) b =
      asExact exactTarget (Gravity.takeInNewest combine newest count average b) := by
  have hle : (count.toNat : Int) ≤ newest.toNat ↔ count ≤ newest := by
    rw [UInt64.le_iff_toNat_le]
    omega
  unfold takeInNewest Gravity.takeInNewest
  by_cases hnewest : count ≤ newest
  · rw [if_pos (hle.2 hnewest), if_pos hnewest, takeIn_eq hcomputes hraise]
  · rw [if_neg (mt hle.1 hnewest), if_neg hnewest]
    rfl

end

/-! ## Scaling -/

/-- A number times `numerator` over `denominator`, and the number itself over zero. The quotient is
the one result that need not fit into the 256 bits of a target. -/
def scaled (target numerator denominator : Int) : Except Fault Int :=
  if denominator = 0 then .ok target
  else do
    let product ← (word 512).fit (target * numerator)
    (word 512).quotient product denominator

/-- A number that stops at the greatest target. -/
def saturated (x : Except Fault Int) : Except Fault Int := x.map (min · (2 ^ 256 - 1))

theorem saturated_exactTarget (t : Target) :
    saturated (.ok (exactTarget t)) = .ok (exactTarget t) := by
  have ht := mem_word_iff.1 (exactTarget_mem t)
  exact congrArg Except.ok (Int.min_eq_left (by omega))

/-- A product of a target and a 64-bit count fits into 512 bits. -/
theorem mul_mem_word (t : Target) {n : Int} (hn : 0 ≤ n ∧ n < 2 ^ 64) :
    exactTarget t * n ∈ word 512 := by
  have ht := mem_word_iff.1 (exactTarget_mem t)
  have hnonneg := Int.mul_nonneg ht.1 hn.1
  have hle := Int.mul_le_mul ht.2.le hn.2.le hn.1 (by decide)
  exact mem_word_iff.2 (by omega)

theorem saturated_scaled (t : Target) (numerator denominator : UInt64) :
    saturated (scaled (exactTarget t) numerator.toNat denominator.toNat) =
      .ok (exactTarget ((t.mulDiv numerator denominator).getD t)) := by
  have ht := mem_word_iff.1 (exactTarget_mem t)
  have hnumerator := numerator.toNat_lt
  unfold scaled
  rcases Nat.eq_zero_or_pos denominator.toNat with hzero | hpos
  · obtain rfl : denominator = 0 := UInt64.toNat_inj.1 hzero
    exact saturated_exactTarget t
  · obtain ⟨u, hu, hvalue⟩ := t.toNat_mulDiv numerator hpos
    have hproduct := mul_mem_word t (n := numerator.toNat) (by omega)
    have hquotient : (exactTarget t * numerator.toNat).tdiv denominator.toNat =
        (t.toNat * numerator.toNat / denominator.toNat : Nat) := by
      rw [exactTarget, ← Int.natCast_mul, ← Int.ofNat_tdiv]
    rw [if_neg (by omega), Range.fit_of_mem hproduct, ok_bind, word_quotient hproduct (by omega),
      hquotient, hu, Option.getD_some, exactTarget, hvalue]
    refine congrArg Except.ok ?_
    show min _ _ = _
    omega

/-- Scales an average by `actual / expected`, if both are positive. -/
def scale (average actual expected : Int) : Except Fault Int :=
  if 0 < actual ∧ 0 < expected then scaled average actual expected else .ok average

theorem saturated_scale (average : Target) (actual expected : Int64) :
    saturated (scale (exactTarget average) actual.toInt expected.toInt) =
      .ok (exactTarget (Gravity.scale average actual expected)) := by
  unfold scale
  by_cases hpos : 0 < actual.toInt ∧ 0 < expected.toInt
  · obtain ⟨a, ha, ha_ne, ha_value⟩ := unsignedCount?_of_pos hpos.1
    obtain ⟨e, he, he_ne, he_value⟩ := unsignedCount?_of_pos hpos.2
    have hactual : actual.toInt = a.toNat := by omega
    have hexpected : expected.toInt = e.toNat := by omega
    rw [if_pos hpos, hactual, hexpected, saturated_scaled, Gravity.scale, ha, he]
    simp only [if_pos (And.intro ha_ne he_ne)]
  · have hresult := toNat_scale average actual expected
    rw [scaledBy, if_neg hpos] at hresult
    rw [if_neg hpos, saturated_exactTarget, exactTarget, exactTarget, hresult]

end Checked

end HeaderRules
