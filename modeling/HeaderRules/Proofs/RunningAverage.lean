import HeaderRules.Gravity.Average
import HeaderRules.Proofs.RatioRetarget

/-!
# Running averages of targets

A gravity-well algorithm takes targets into an average one at a time, and scales the average by two
timespans at the end. `averageOf` is that average as a function of the targets alone. A recurrence
whose steps stay between the average and the target gives an average between the least and the
greatest of the targets (`averageOf_mem`). The weighted one is such: it is an exact mean of two
numbers at every step, and nothing of the 512 bits in which it is formed is visible.
-/

namespace HeaderRules.Gravity

open Target

/-! ## Taking in one target after the other -/

/-- The average of the first `n` targets of a sequence. It starts from the first one; each other one
is taken in by `combine`, together with how many they are by then. -/
def averageOf (combine : Target → Target → UInt64 → Target) (targets : Nat → Target) : Nat → Target
  | 0 => .zero
  | 1 => targets 0
  | n + 2 => combine (averageOf combine targets (n + 1)) (targets (n + 1)) (.ofNat (n + 2))

theorem averageOf_succ (combine : Target → Target → UInt64 → Target) (targets : Nat → Target)
    (n : Nat) :
    averageOf combine targets (n + 1) =
      if n = 0 then targets 0
      else combine (averageOf combine targets n) (targets n) (.ofNat (n + 1)) := by
  cases n <;> rfl

/-- With a count below the limit the recurrence leaves no bounds that the average and the target
have in common. -/
def KeepsBounds (combine : Target → Target → UInt64 → Target) (limit : Nat) : Prop :=
  ∀ (average target : Target) (count : UInt64) (lo hi : Nat), 0 < count.toNat →
    count.toNat < limit → lo ≤ average.toNat ∧ average.toNat ≤ hi →
    lo ≤ target.toNat ∧ target.toNat ≤ hi →
    lo ≤ (combine average target count).toNat ∧ (combine average target count).toNat ≤ hi

/-- An average of some targets lies between bounds of all of them. -/
theorem averageOf_mem {combine : Target → Target → UInt64 → Target} {limit : Nat}
    (hcombine : KeepsBounds combine limit) (hlimit : limit ≤ 2 ^ 64) {targets : Nat → Target}
    {lo hi n : Nat} (hn : 0 < n) (hcount : n < limit)
    (hbounds : ∀ k < n, lo ≤ (targets k).toNat ∧ (targets k).toNat ≤ hi) :
    lo ≤ (averageOf combine targets n).toNat ∧ (averageOf combine targets n).toNat ≤ hi := by
  induction n with
  | zero => exact absurd hn (Nat.lt_irrefl 0)
  | succ n ih =>
    rw [averageOf_succ]
    split_ifs with hfirst
    · exact hbounds 0 n.succ_pos
    · have hword : (UInt64.ofNat (n + 1)).toNat = n + 1 :=
        UInt64.toNat_ofNat_of_lt (hcount.trans_le hlimit)
      exact hcombine _ _ _ lo hi (by omega) (by omega)
        (ih (by omega) (by omega) fun k hk => hbounds k (by omega)) (hbounds n n.lt_succ_self)

/-! ## The incremental average -/

/-- The incremental average moves toward a target by the distance between them over the count,
truncated. -/
theorem toNat_incrementalAverage (average target : Target) {count : UInt64}
    (hcount : 0 < count.toNat) :
    ((incrementalAverage average target count).toNat : Int) =
      average.toNat + ((target.toNat : Int) - average.toNat).tdiv count.toNat := by
  have haverage := average.toNat_lt
  have htarget := target.toNat_lt
  have hcount_ne : count ≠ 0 := by
    rintro rfl
    exact absurd hcount (by decide)
  have hword : (BitVec.ofNat 256 count.toNat).toNat = count.toNat :=
    toNat_ofNat_count (by decide) count
  unfold incrementalAverage
  simp only [if_neg hcount_ne]
  by_cases hle : average ≤ target
  · obtain ⟨d, hd⟩ := Nat.exists_eq_add_of_le (show average.toNat ≤ target.toNat from hle)
    have hdistance : (target.value - average.value).toNat = d :=
      (BitVec.toNat_sub_of_le hle).trans (Nat.sub_eq_of_eq_add' hd)
    have hpart := Nat.div_le_self d count.toNat
    have hsum : (average.value + (target.value - average.value) /
        BitVec.ofNat 256 count.toNat).toNat = average.toNat + d / count.toNat := by
      rw [BitVec.toNat_add, BitVec.toNat_udiv, hdistance, hword]
      exact Nat.mod_eq_of_lt (show average.toNat + _ < 2 ^ 256 by omega)
    rw [if_pos hle, Target.toNat, hsum, hd, Int.natCast_add, Int.natCast_add, add_sub_cancel_left]
    rfl
  · have hlt : target.toNat < average.toNat := Nat.lt_of_not_le hle
    obtain ⟨d, hd⟩ := Nat.exists_eq_add_of_le hlt.le
    have hdistance : (average.value - target.value).toNat = d :=
      (BitVec.toNat_sub_of_le hlt.le).trans (Nat.sub_eq_of_eq_add' hd)
    have hpart := Nat.div_le_self d count.toNat
    have hfits : (average.value - target.value) / BitVec.ofNat 256 count.toNat ≤ average.value := by
      rw [BitVec.le_def, BitVec.toNat_udiv, hdistance, hword]
      exact hpart.trans (show d ≤ average.toNat by omega)
    have hdifference : (average.value - (average.value - target.value) /
        BitVec.ofNat 256 count.toNat).toNat = average.toNat - d / count.toNat := by
      rw [BitVec.toNat_sub_of_le hfits, BitVec.toNat_udiv, hdistance, hword]
      rfl
    have hback : (target.toNat : Int) - average.toNat = -d := by omega
    rw [if_neg hle, Target.toNat, hdifference, hback, Int.neg_tdiv, ← Int.ofNat_tdiv]
    omega

/-! ## The weighted average -/

/-- The mean of `c` times one number and once another lies between bounds of both. -/
theorem mean_mem {lo hi a b c : Nat} (ha : lo ≤ a ∧ a ≤ hi) (hb : lo ≤ b ∧ b ≤ hi) :
    lo ≤ (a * c + b) / (c + 1) ∧ (a * c + b) / (c + 1) ≤ hi := by
  constructor
  · have hlo : lo * c ≤ a * c := Nat.mul_le_mul_right c ha.1
    rw [Nat.le_div_iff_mul_le c.succ_pos, Nat.mul_succ]
    omega
  · have hhi : a * c ≤ hi * c := Nat.mul_le_mul_right c ha.2
    apply Nat.div_le_of_le_mul
    rw [Nat.succ_mul, Nat.mul_comm c hi]
    omega

/-- The quotient that the weighted average narrows to a target, formed in 512 bits. -/
def weightedQuotient (average target : Target) (count : UInt64) : BitVec 512 :=
  (average.widen * BitVec.ofNat 512 count.toNat + target.widen) /
    BitVec.ofNat 512 (min (count.toNat + 1) 0xffffffffffffffff)

/-- As long as the count can be raised, the quotient is the exact mean rounded down. -/
theorem toNat_weightedQuotient (average target : Target) {count : UInt64}
    (hcount : count.toNat + 1 < 2 ^ 64) :
    (weightedQuotient average target count).toNat =
      (average.toNat * count.toNat + target.toNat) / (count.toNat + 1) := by
  have haverage := average.toNat_lt
  have htarget := target.toNat_lt
  have hwide : average.widen.toNat < 2 ^ 256 := by rwa [toNat_widen]
  have hproduct : average.toNat * count.toNat ≤ 2 ^ 256 * 2 ^ 64 :=
    Nat.mul_le_mul haverage.le count.toNat_lt.le
  have htotal : (average.widen * BitVec.ofNat 512 count.toNat + target.widen).toNat =
      average.toNat * count.toNat + target.toNat := by
    rw [BitVec.toNat_add, toNat_mul_count (by decide) hwide, toNat_widen, toNat_widen]
    exact Nat.mod_eq_of_lt (by omega)
  have hdivisor : (BitVec.ofNat 512 (min (count.toNat + 1) 0xffffffffffffffff)).toNat =
      count.toNat + 1 := by
    rw [BitVec.toNat_ofNat, Nat.min_eq_left (by omega)]
    exact Nat.mod_eq_of_lt (by omega)
  rw [weightedQuotient, BitVec.toNat_udiv, htotal, hdivisor]

/-- A mean of two targets is not greater than both, so that it fits into a target. -/
theorem weightedQuotient_le_greatest (average target : Target) {count : UInt64}
    (hcount : count.toNat + 1 < 2 ^ 64) :
    weightedQuotient average target count ≤ greatest.widen := by
  rw [BitVec.le_def, toNat_widen, toNat_greatest, toNat_weightedQuotient average target hcount]
  exact (mean_mem ⟨average.toNat.zero_le, Nat.le_pred_of_lt average.toNat_lt⟩
    ⟨target.toNat.zero_le, Nat.le_pred_of_lt target.toNat_lt⟩).2

/-- Narrowing leaves the quotient as it is. -/
theorem weightedAverage_eq_quotient (average target : Target) {count : UInt64}
    (hcount : count.toNat + 1 < 2 ^ 64) :
    weightedAverage average target count =
      ⟨(weightedQuotient average target count).setWidth 256⟩ :=
  if_pos (weightedQuotient_le_greatest average target hcount)

/-- As long as the count can be raised, the weighted average is the exact mean rounded down. -/
theorem toNat_weightedAverage (average target : Target) {count : UInt64}
    (hcount : count.toNat + 1 < 2 ^ 64) :
    (weightedAverage average target count).toNat =
      (average.toNat * count.toNat + target.toNat) / (count.toNat + 1) := by
  have hfits := weightedQuotient_le_greatest average target hcount
  rw [BitVec.le_def, toNat_widen, toNat_greatest] at hfits
  rw [← toNat_weightedQuotient average target hcount, weightedAverage_eq_quotient _ _ hcount]
  exact (BitVec.toNat_setWidth _ _).trans (Nat.mod_eq_of_lt (by omega))

theorem keepsBounds_weightedAverage : KeepsBounds weightedAverage (2 ^ 64 - 1) := by
  intro average target count lo hi _ hcount haverage htarget
  rw [toNat_weightedAverage average target (by omega)]
  exact mean_mem haverage htarget

/-- The weighted average of some targets lies between bounds of all of them. -/
theorem averageOf_weightedAverage_mem {targets : Nat → Target} {lo hi n : Nat} (hn : 0 < n)
    (hcount : n + 1 < 2 ^ 64)
    (hbounds : ∀ k < n, lo ≤ (targets k).toNat ∧ (targets k).toNat ≤ hi) :
    lo ≤ (averageOf weightedAverage targets n).toNat ∧
      (averageOf weightedAverage targets n).toNat ≤ hi :=
  averageOf_mem keepsBounds_weightedAverage (Nat.sub_le _ _) hn (by omega) hbounds

/-! ## Scaling by two timespans -/

/-- A number times the ratio of two timespans, rounded down and at most the greatest target; the
number itself unless both timespans are positive. -/
def scaledBy (average : Nat) (actual expected : Int) : Nat :=
  if 0 < actual ∧ 0 < expected then
    min (average * actual.toNat / expected.toNat) (2 ^ 256 - 1)
  else average

theorem scaledBy_of_not_pos {average : Nat} {actual expected : Int}
    (h : actual ≤ 0 ∨ expected ≤ 0) : scaledBy average actual expected = average := by
  unfold scaledBy
  rw [if_neg]
  omega

/-- A timespan of at most three times the expected one gives at most three times the average. -/
theorem scaledBy_le {average hi : Nat} {actual expected : Int} (haverage : average ≤ hi)
    (hactual : 0 < expected → actual ≤ 3 * expected) :
    scaledBy average actual expected ≤ 3 * hi := by
  unfold scaledBy
  split_ifs with hpos
  · obtain ⟨-, hexpected⟩ := hpos
    have hle := hactual hexpected
    have hnat : actual.toNat ≤ 3 * expected.toNat := by omega
    calc min (average * actual.toNat / expected.toNat) (2 ^ 256 - 1)
        ≤ average * actual.toNat / expected.toNat := Nat.min_le_left _ _
      _ ≤ hi * (3 * expected.toNat) / expected.toNat :=
          Nat.div_le_div_right (Nat.mul_le_mul haverage hnat)
      _ = 3 * hi := by
          rw [← Nat.mul_assoc, Nat.mul_div_cancel _ (by omega), Nat.mul_comm]
  · omega

/-- A ratio of at most one makes no number greater. -/
theorem mul_div_le_of_le {a b : Nat} (c : Nat) (h : a ≤ b) : c * a / b ≤ c := by
  apply Nat.div_le_of_le_mul
  rw [Nat.mul_comm]
  exact Nat.mul_le_mul_right c h

/-- A timespan of at least `least`, which the expected one is not below, gives at least the least
average times their ratio, rounded down. -/
theorem le_scaledBy {lo average : Nat} {least actual expected : Int} (haverage : lo ≤ average)
    (hlo : lo < 2 ^ 256) (hactual : least ≤ actual) (hexpected : 0 < expected → least ≤ expected) :
    lo * least.toNat / expected.toNat ≤ scaledBy average actual expected := by
  -- The ratio is at most one.
  have hratio : lo * least.toNat / expected.toNat ≤ lo := by
    rcases Nat.eq_zero_or_pos expected.toNat with hzero | hpos
    · rw [hzero, Nat.div_zero]
      exact lo.zero_le
    · exact mul_div_le_of_le lo (by omega)
  unfold scaledBy
  split_ifs
  · apply Nat.le_min_of_le_of_le
    · exact Nat.div_le_div_right (Nat.mul_le_mul haverage (by omega))
    · omega
  · omega

/-- A 64-bit integer is a positive count if it is positive. -/
theorem unsignedCount?_of_pos {n : Int64} (h : 0 < n.toInt) :
    ∃ count, unsignedCount? n = some count ∧ count ≠ 0 ∧ count.toNat = n.toInt.toNat := by
  have hle : 0 ≤ n := Int64.le_iff_toInt_le.2 h.le
  have hvalue : n.toUInt64.toNat = n.toInt.toNat := Int64.toNat_toUInt64_of_le hle
  refine ⟨n.toUInt64, if_pos hle, ?_, hvalue⟩
  rintro hzero
  rw [hzero, UInt64.toNat_zero] at hvalue
  omega

/-- A 64-bit integer that is not positive is no count, or the count zero. -/
theorem unsignedCount?_of_not_pos {n : Int64} (h : ¬0 < n.toInt) :
    unsignedCount? n = none ∨ unsignedCount? n = some 0 := by
  unfold unsignedCount?
  split_ifs with hle
  · have hzero : n.toInt = (0 : Int64).toInt :=
      le_antisymm (not_lt.1 h) (Int64.le_iff_toInt_le.1 hle)
    rw [Int64.toInt_inj.1 hzero]
    exact .inr rfl
  · exact .inl rfl

/-- Over the integers the last step of every algorithm is `scaledBy`. -/
theorem toNat_scale (average : Target) (actual expected : Int64) :
    (scale average actual expected).toNat =
      scaledBy average.toNat actual.toInt expected.toInt := by
  unfold scale scaledBy
  by_cases hactual : 0 < actual.toInt
  · obtain ⟨a, ha, ha_ne, ha_value⟩ := unsignedCount?_of_pos hactual
    by_cases hexpected : 0 < expected.toInt
    · obtain ⟨e, he, he_ne, he_value⟩ := unsignedCount?_of_pos hexpected
      have he_pos : 0 < e.toNat := by omega
      obtain ⟨scaled, hscaled, hvalue⟩ := average.toNat_mulDiv a he_pos
      rw [ha, he, if_pos ⟨hactual, hexpected⟩]
      simp only [if_pos (And.intro ha_ne he_ne), hscaled, Option.getD_some]
      rw [hvalue, ha_value, he_value]
    · rw [if_neg fun h => hexpected h.2, ha]
      rcases unsignedCount?_of_not_pos hexpected with he | he <;> simp [he]
  · rw [if_neg fun h => hactual h.1]
    rcases unsignedCount?_of_not_pos hactual with ha | ha
    · rw [ha]
    · rw [ha]
      cases unsignedCount? expected <;> simp

end HeaderRules.Gravity
