import HeaderRules.Proofs.ExactRatio
import HeaderRules.Proofs.MinDifficultySearch

/-!
# Checked arithmetic over the integers

The rules compute with words of 64, 256 and 512 bits and with signed words of 64 bits. Here their
sums, differences, products and quotients are formed over the integers, and each result is checked:
a computation ends in a fault at the first number that does not fit into the word it is formed in,
and at the first division by zero. Where such a computation has the value of the machine's one, no
word on the way to it wrapped around or stopped at an end of its range, and every value on the way
is the exact one.

The first computations in this form are the limited timespan of a ratio retarget
(`timespanBetween_eq`) and the pause of the test network rule (`isLongPause_eq`).
-/

namespace HeaderRules

namespace TimespanClamp

/-- The constants of the limits are at least one and at most 2¹⁶. -/
def Moderate : TimespanClamp → Prop
  | ratio minDivisor maxMultiplier =>
    (1 ≤ minDivisor.toInt ∧ minDivisor.toInt ≤ 2 ^ 16) ∧
      1 ≤ maxMultiplier.toInt ∧ maxMultiplier.toInt ≤ 2 ^ 16
  | dampened dampening => 1 ≤ dampening.toInt ∧ dampening.toInt ≤ 2 ^ 16

theorem Moderate.positive {clamp : TimespanClamp} (h : clamp.Moderate) : clamp.Positive := by
  cases clamp with
  | ratio => exact ⟨h.1.1, h.2.1⟩
  | dampened => exact h.1

end TimespanClamp

namespace Checked

open Outcome

/-! ## Ranges and faults -/

/-- Why a checked computation has no value. -/
inductive Fault where
  /-- A result does not fit into its word. -/
  | outOfRange (result : Int)
  /-- A divisor is zero. -/
  | zeroDivisor
  /-- The computation fails for a reason of its own. -/
  | verification (cause : VerificationError)
deriving DecidableEq, Repr

/-- The numbers from `low` to `high`. -/
structure Range where
  low : Int
  high : Int

/-- The numbers of a signed 64-bit word. -/
def signed64 : Range := ⟨-0x8000000000000000, 0x7fffffffffffffff⟩

/-- The numbers of a word with so many bits. -/
def word (bits : Nat) : Range := ⟨0, 2 ^ bits - 1⟩

namespace Range

instance : Membership Int Range := ⟨fun r n => r.low ≤ n ∧ n ≤ r.high⟩

instance (n : Int) (r : Range) : Decidable (n ∈ r) :=
  inferInstanceAs (Decidable (r.low ≤ n ∧ n ≤ r.high))

/-- A result, if it is in a range. -/
def fit (r : Range) (n : Int) : Except Fault Int :=
  if n ∈ r then .ok n else .error (.outOfRange n)

/-- A quotient truncated toward zero, if the divisor is not zero and the quotient is in a range. -/
def quotient (r : Range) (a b : Int) : Except Fault Int :=
  if b = 0 then .error .zeroDivisor else r.fit (a.tdiv b)

variable {r : Range} {a b n : Int}

theorem fit_of_mem (h : n ∈ r) : r.fit n = .ok n := if_pos h

/-- A truncated quotient by a positive number is between zero and what is divided. -/
theorem tdiv_mem_between (hb : 1 ≤ b) : min 0 a ≤ a.tdiv b ∧ a.tdiv b ≤ max 0 a := by
  have hsmall := Int.natAbs_tdiv_le_natAbs a b
  rcases le_total 0 a with ha | ha
  · have := Int.tdiv_nonneg ha (show 0 ≤ b by omega)
    omega
  · have := Int.tdiv_nonneg (show 0 ≤ -a by omega) (show 0 ≤ b by omega)
    rw [Int.neg_tdiv] at this
    omega

/-- Over a positive divisor nothing leaves a range that holds zero. -/
theorem quotient_of_mem (hzero : 0 ∈ r) (ha : a ∈ r) (hb : 1 ≤ b) :
    r.quotient a b = .ok (a.tdiv b) := by
  obtain ⟨hlow, hhigh⟩ := tdiv_mem_between (a := a) hb
  have hquotient : a.tdiv b ∈ r :=
    ⟨(le_min hzero.1 ha.1).trans hlow, hhigh.trans (max_le hzero.2 ha.2)⟩
  rw [quotient, if_neg (by omega), fit_of_mem hquotient]

end Range

theorem mem_signed64_iff {n : Int} :
    n ∈ signed64 ↔ -0x8000000000000000 ≤ n ∧ n ≤ 0x7fffffffffffffff := Iff.rfl

theorem mem_word_iff {bits : Nat} {n : Int} : n ∈ word bits ↔ 0 ≤ n ∧ n < 2 ^ bits :=
  and_congr_right fun _ => Int.le_sub_one_iff

/-- What a word holds is in its range. -/
theorem toInt_mem_signed64 (n : Int64) : n.toInt ∈ signed64 :=
  mem_signed64_iff.2 ⟨n.le_toInt, Int.le_sub_one_iff.2 n.toInt_lt⟩

theorem signed64_fit_toInt (n : Int64) : signed64.fit n.toInt = .ok n.toInt :=
  Range.fit_of_mem (toInt_mem_signed64 n)

theorem word_fit_toNat (n : UInt64) : (word 64).fit n.toNat = .ok (n.toNat : Int) :=
  Range.fit_of_mem (mem_word_iff.2 ⟨Int.natCast_nonneg _, Int.ofNat_lt.2 n.toNat_lt⟩)

theorem signed64_quotient {a b : Int} (ha : a ∈ signed64) (hb : 1 ≤ b) :
    signed64.quotient a b = .ok (a.tdiv b) :=
  Range.quotient_of_mem (by decide) ha hb

theorem word_quotient {bits : Nat} {a b : Int} (ha : a ∈ word bits) (hb : 1 ≤ b) :
    (word bits).quotient a b = .ok (a.tdiv b) :=
  Range.quotient_of_mem (mem_word_iff.2 ⟨le_rfl, Int.pow_pos (by decide)⟩) ha hb

/-! ## Outcomes -/

variable {α β γ δ : Type}

/-- The outcome of a computation of the machine, with its value as exact numbers. -/
def asExact (exact : α → β) (x : Except VerificationError α) : Except Fault β :=
  (x.map exact).mapError .verification

theorem asExact_ok (exact : α → β) (a : α) : asExact exact (.ok a) = .ok (exact a) := rfl

/-- What fails in the machine fails for a reason of its own, and not in its arithmetic. -/
theorem exists_cause_of_asExact {exact : α → β} {x : Except VerificationError α} {fault : Fault}
    (h : asExact exact x = .error fault) :
    ∃ cause, x = .error cause ∧ fault = .verification cause := by
  cases x with
  | error cause => exact ⟨cause, rfl, (Except.error.inj h).symm⟩
  | ok a => exact nomatch h

/-- A checked step after a computation of the machine. -/
theorem asExact_bind {x : Except VerificationError α} {exact : α → β} {f : β → Except Fault δ}
    {g : α → γ} {exact' : γ → δ} (h : ∀ a, f (exact a) = .ok (exact' (g a))) :
    (asExact exact x >>= f) = asExact exact' (x.map g) := by
  cases x with
  | error e => rfl
  | ok a => exact h a

/-! ## Timespans -/

/-- A timespan moved into the limits around the target timespan. -/
def limited (clamp : TimespanClamp) (timespan target : Int) : Except Fault Int :=
  match clamp with
  | .ratio minDivisor maxMultiplier => do
    let least ← signed64.quotient target minDivisor.toInt
    let greatest ← signed64.fit (target * maxMultiplier.toInt)
    return min (max timespan least) greatest
  | .dampened dampening => do
    let deviation ← signed64.fit (timespan - target)
    let part ← signed64.quotient deviation dampening.toInt
    let moved ← signed64.fit (target + part)
    let quarter ← signed64.quotient target 4
    let least ← signed64.fit (target - quarter)
    let half ← signed64.quotient target 2
    let greatest ← signed64.fit (target + half)
    return min (max moved least) greatest

/-- Between 32-bit numbers of seconds no step of the limits leaves the signed range. -/
theorem limited_eq {clamp : TimespanClamp} (hclamp : clamp.Moderate) {timespan target : Int}
    (htimespan : -0x100000000 < timespan ∧ timespan < 0x100000000)
    (htarget : 0 ≤ target ∧ target < 0x100000000) :
    limited clamp timespan target = .ok (clamp.exact timespan target) := by
  have hmem : target ∈ signed64 := mem_signed64_iff.2 (by omega)
  cases clamp with
  | ratio minDivisor maxMultiplier =>
    obtain ⟨⟨hdivisor, -⟩, hmultiplier, hmultiplier_le⟩ := hclamp
    have hgreatest : target * maxMultiplier.toInt ∈ signed64 := by
      have hnonneg := Int.mul_nonneg htarget.1 (show 0 ≤ maxMultiplier.toInt by omega)
      have hle := Int.mul_le_mul htarget.2.le hmultiplier_le (by omega) (by decide)
      exact mem_signed64_iff.2 (by omega)
    simp only [limited, signed64_quotient hmem hdivisor, Range.fit_of_mem hgreatest, ok_bind]
    rfl
  | dampened dampening =>
    obtain ⟨hdampening, -⟩ := hclamp
    have hdeviation : timespan - target ∈ signed64 := mem_signed64_iff.2 (by omega)
    -- Each quotient is between zero and what is divided.
    have hpart := Range.tdiv_mem_between (a := timespan - target) hdampening
    have hquarter := Range.tdiv_mem_between (a := target) (show (1 : Int) ≤ 4 by decide)
    have hhalf := Range.tdiv_mem_between (a := target) (show (1 : Int) ≤ 2 by decide)
    have hmoved : target + (timespan - target).tdiv dampening.toInt ∈ signed64 :=
      mem_signed64_iff.2 (by omega)
    have hleast : target - target.tdiv 4 ∈ signed64 := mem_signed64_iff.2 (by omega)
    have hgreatest : target + target.tdiv 2 ∈ signed64 := mem_signed64_iff.2 (by omega)
    simp only [limited, Range.fit_of_mem hdeviation, signed64_quotient hdeviation hdampening,
      Range.fit_of_mem hmoved, signed64_quotient hmem (show (1 : Int) ≤ 4 by decide),
      Range.fit_of_mem hleast, signed64_quotient hmem (show (1 : Int) ≤ 2 by decide),
      Range.fit_of_mem hgreatest, ok_bind]
    rfl

/-- The timespan between two times, moved into the limits around the target timespan. -/
def timespanBetween (clamp : TimespanClamp) (newest oldest target : UInt32) : Except Fault Int := do
  let measured ← signed64.fit (newest.toNat - oldest.toNat)
  limited clamp measured target.toNat

theorem timespanBetween_eq {clamp : TimespanClamp} (hclamp : clamp.Moderate)
    (newest oldest target : UInt32) :
    timespanBetween clamp newest oldest target =
      .ok (clamp.apply (satSub64 (seconds newest) (seconds oldest)) (seconds target)).toInt := by
  have := newest.toNat_lt
  have := oldest.toNat_lt
  have := target.toNat_lt
  have hmeasured : (newest.toNat - oldest.toNat : Int) ∈ signed64 := mem_signed64_iff.2 (by omega)
  have hexact := toInt_satSub64_seconds newest oldest
  rw [timespanBetween, Range.fit_of_mem hmeasured, ok_bind, limited_eq hclamp (by omega) (by omega),
    TimespanClamp.toInt_apply hclamp.positive (by omega) (by omega), hexact]

/-! ## Pauses -/

/-- Whether a pause lets the next block of a test network have any difficulty. -/
def isLongPause (c : ChainParams) (prev : StoredBlock) (next : Header) : Except Fault Bool := do
  let pause ← signed64.fit (next.time.toNat - prev.time.toNat)
  let window ← signed64.fit (c.params.targetSpacing.toNat * 2)
  return pause < 0 || pause > window

theorem isLongPause_eq (c : ChainParams) (prev : StoredBlock) (next : Header) :
    isLongPause c prev next = .ok (c.isLongPause prev next) := by
  have := next.time.toNat_lt
  have := prev.time.toNat_lt
  have := c.params.targetSpacing.toNat_lt
  have hpause : (next.time.toNat - prev.time.toNat : Int) ∈ signed64 :=
    mem_signed64_iff.2 (by omega)
  have hwindow : (c.params.targetSpacing.toNat * 2 : Int) ∈ signed64 :=
    mem_signed64_iff.2 (by omega)
  rw [isLongPause, Range.fit_of_mem hpause, ok_bind, Range.fit_of_mem hwindow, ok_bind]
  refine congrArg Except.ok (Bool.eq_iff_iff.2 ?_)
  rw [ChainParams.isLongPause_iff, Bool.or_eq_true, decide_eq_true_eq, decide_eq_true_eq]
  omega

end Checked

end HeaderRules
