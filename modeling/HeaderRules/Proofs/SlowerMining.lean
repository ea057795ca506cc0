import HeaderRules.Proofs.RetargetEnvelope
import HeaderRules.Proofs.Wave3Form

/-!
# Slower mining never raises the difficulty

Two runs of a retarget are compared, of which the second saw no harder targets and no shorter
timespan. A retarget is put together from steps that are all monotone: the difference to a target
timespan is divided and truncated, limits are applied, targets are averaged and rounded down at each
of them, and the result is scaled and rounded down. So the second run does not end with a harder
target (`slower_and_easier_past_gives_no_harder_target`).

One step of the third Dark Gravity Wave is not monotone by itself. Scaling leaves an average as it
is unless the timespan is positive, and a short positive timespan gives less than that. The limits
keep every timespan at a third of the expected one or more, so the jump can only be met where that
third rounds down to zero (`Wave3.no_jump`). No expected timespan is as short as that, but one that
wraps around may come out as two seconds, and then the jump is met
(`Wave3.exists_harder_target`).
-/

namespace HeaderRules

open Outcome

/-! ## Limits -/

/-- A longer timespan is not moved below a shorter one. -/
theorem TimespanClamp.exact_mono {clamp : TimespanClamp} (hclamp : clamp.Positive)
    {short long : Int} (h : short ≤ long) (target : Int) :
    clamp.exact short target ≤ clamp.exact long target := by
  cases clamp with
  | ratio minDivisor maxMultiplier =>
    simp only [exact]
    exact min_le_min_right _ (max_le_max_right _ h)
  | dampened dampening =>
    have hpos : 0 < dampening.toInt := Int.lt_of_lt_of_le Int.zero_lt_one hclamp
    have hpart := Int.tdiv_le_tdiv hpos (Int.sub_le_sub_right h target)
    simp only [exact]
    apply min_le_min_right
    apply max_le_max_right
    exact Int.add_le_add_left hpart target

namespace ChainParams

variable {c : ChainParams} {prev prev' start start' : StoredBlock} {S T : History}
  {old old' t t' : Target}

/-! ## Ratio retargets -/

/-- A ratio retarget grows with the old target and with the measured timespan. -/
theorem requiredTarget_mono
    (hheight : prev.height = prev'.height)
    (hratio : c.params.window? (nextHeight prev.height) = none)
    (hclamp : (c.params.timespanClamp prev.height).Positive)
    (hpos : 0 < (c.params.targetTimespanAt prev.height).toNat)
    (ht : c.requiredTarget prev S = .ok t) (ht' : c.requiredTarget prev' T = .ok t')
    (hold : prev.target? = some old) (hold' : prev'.target? = some old') (heasier : old ≤ old')
    (hstart : S.ancestor (c.params.retargetBlockspan prev.height).toNat prev = .ok start)
    (hstart' : T.ancestor (c.params.retargetBlockspan prev'.height).toNat prev' = .ok start')
    (hslower : (prev.time.toNat : Int) - start.time.toNat ≤
      prev'.time.toNat - start'.time.toNat) : t ≤ t' := by
  have hvalue := toNat_requiredTarget hratio hclamp rfl hpos hold hstart ht
  have hnonneg := TimespanClamp.exact_nonneg hclamp (prev.time.toNat - start.time.toNat)
    (Int.natCast_nonneg (c.params.targetTimespanAt prev.height).toNat)
  have hmono := TimespanClamp.exact_mono hclamp hslower
    (c.params.targetTimespanAt prev.height).toNat
  rw [hheight] at hratio hclamp hpos hvalue hnonneg hmono
  have hvalue' := toNat_requiredTarget hratio hclamp rfl hpos hold' hstart' ht'
  have heasier' : (old.toNat : Int) ≤ old'.toNat := Int.ofNat_le.2 heasier
  have hproduct := Int.mul_le_mul heasier' hmono hnonneg (Int.natCast_nonneg _)
  have hscaled := Int.ediv_le_ediv (Int.natCast_pos.2 hpos) hproduct
  show t.toNat ≤ t'.toNat
  omega

end ChainParams

/-! ## Averages and scaling -/

namespace Gravity

/-- Easier targets have no harder weighted average. -/
theorem averageOf_weightedAverage_mono {targets easier : Nat → Target} {n : Nat}
    (hcount : n + 1 < 2 ^ 64) (h : ∀ k < n, targets k ≤ easier k) :
    averageOf weightedAverage targets n ≤ averageOf weightedAverage easier n := by
  induction n with
  | zero => exact Nat.le_refl _
  | succ n ih =>
    have hlast : (targets n).toNat ≤ (easier n).toNat := h n n.lt_succ_self
    have hbefore : (averageOf weightedAverage targets n).toNat ≤
        (averageOf weightedAverage easier n).toNat := ih (by omega) fun k hk => h k (by omega)
    rw [averageOf_succ, averageOf_succ]
    split_ifs
    · exact h 0 n.succ_pos
    · have hword : (UInt64.ofNat (n + 1)).toNat = n + 1 := toNat_count (by omega)
      show (weightedAverage _ _ _).toNat ≤ (weightedAverage _ _ _).toNat
      rw [toNat_weightedAverage _ _ (by omega), toNat_weightedAverage _ _ (by omega)]
      apply Nat.div_le_div_right
      apply Nat.add_le_add _ hlast
      exact Nat.mul_le_mul_right _ hbefore

/-- Scaling grows with the number and with the timespan, unless the timespan becomes positive
without reaching the expected one. -/
theorem scaledBy_mono {a b : Nat} {short long expected : Int} (hb : b < 2 ^ 256) (hab : a ≤ b)
    (hlonger : short ≤ long) (hjump : 0 < expected → 0 < long → 0 < short ∨ expected ≤ long) :
    scaledBy a short expected ≤ scaledBy b long expected := by
  unfold scaledBy
  by_cases hlong : 0 < long ∧ 0 < expected
  · rw [if_pos hlong]
    by_cases hshort : 0 < short ∧ 0 < expected
    · rw [if_pos hshort]
      apply min_le_min_right
      apply Nat.div_le_div_right
      exact Nat.mul_le_mul hab (by omega)
    · -- The smaller number is not scaled, and the greater one is not scaled down.
      have hreached : expected ≤ long := by
        rcases hjump hlong.2 hlong.1 with hpositive | hreached
        · exact absurd ⟨hpositive, hlong.2⟩ hshort
        · exact hreached
      have hup : b ≤ b * long.toNat / expected.toNat := by
        rw [Nat.le_div_iff_mul_le (by omega)]
        exact Nat.mul_le_mul_left b (by omega)
      rw [if_neg hshort]
      omega
  · rw [if_neg hlong, if_neg (by omega)]
    exact hab

namespace Wave3

variable {spacing : UInt32} {window : WindowBounds} {easiest : Target} {n : Nat}
  {S T history : History} {a b prev : StoredBlock} {targets : Nat → Target}

/-! ## The third Dark Gravity Wave -/

theorem limited_mono {short long : Int64} (h : short.toInt ≤ long.toInt) (expected : Int64) :
    (limited short expected).toInt ≤ (limited long expected).toInt := by
  unfold limited
  rw [toInt_min, toInt_min, toInt_max, toInt_max]
  omega

/-- Of two limited timespans both are positive or none is. Only where the expected one has no third
can they differ, and if it is not two either, the positive one reaches it. -/
theorem no_jump {short long expected : Int64} (htwo : expected ≠ 2) (hpos : 0 < expected.toInt)
    (hlong : 0 < (limited long expected).toInt) :
    0 < (limited short expected).toInt ∨ expected.toInt ≤ (limited long expected).toInt := by
  have htwo : expected.toInt ≠ 2 := fun h => htwo (Int64.toInt_inj.1 h)
  have hthird := toInt_div_three expected
  rw [Int.tdiv_eq_ediv_of_nonneg hpos.le] at hthird
  unfold limited at hlong ⊢
  rw [toInt_min, toInt_max] at hlong ⊢
  rw [toInt_min, toInt_max]
  omega

/-- A window of so many blocks ends after them. -/
theorem limit_ofNat (minimum : UInt64) (hn : n ≠ 0) (hcount : n < 2 ^ 64) :
    WindowBounds.max ⟨minimum, .ofNat n⟩ ≠ 0 ∧ WindowBounds.limit ⟨minimum, .ofNat n⟩ = n := by
  have hword : (UInt64.ofNat n).toNat = n := toNat_count hcount
  have hmax : WindowBounds.max ⟨minimum, .ofNat n⟩ ≠ 0 := by
    intro (hzero : UInt64.ofNat n = 0)
    rw [hzero] at hword
    exact hn hword.symm
  exact ⟨hmax, (WindowBounds.limit_eq hmax).trans hword⟩

/-- The target of a walk over a window that may have no maximum, as long as the blocks that it reads
can be counted. -/
theorem exists_target_of_readCount (spacing : UInt32) (easiest : Target)
    (hlong : tooShort prev window = false)
    (hn : readCount history prev window.limit = n) (hcount : n < 2 ^ 64)
    (hdecoded : ∀ k < min n window.min.toNat, (read history prev k).target? = some (targets k)) :
    ∃ t, target prev history spacing window easiest = .ok t ∧
      t.toNat = scaledBy (averageOf weightedAverage targets (min n window.min.toNat)).toNat
        (limited (elapsedAfter (read history prev) n) (expectedSeconds spacing n)).toInt
        (expectedSeconds spacing n).toInt := by
  have hheight : prev.height ≠ 0 := by
    intro hzero
    rw [(Algorithm.tooShort_iff prev window).2 (.inl hzero)] at hlong
    exact Bool.noConfusion hlong
  have hlimit : window.limit ≠ 0 := by
    rw [WindowBounds.limit]
    split_ifs with hmax
    · decide
    · exact (WindowBounds.toNat_max_pos hmax).ne'
  have hpos : 0 < n := hn ▸ readCount_pos hlimit hheight
  -- The same walk over a window that ends where it ends.
  have hword : (UInt64.ofNat n).toNat = n := toNat_count hcount
  obtain ⟨hmax, hlimit'⟩ := limit_ofNat window.min hpos.ne' hcount
  have hsame : target prev history spacing window easiest =
      target prev history spacing ⟨window.min, .ofNat n⟩ easiest := by
    have hle := readCount_le history prev window.limit
    have hend := firstUpTo_eq_limit_or window.limit fun k => (read history prev k).height = 0
    rw [← readCount, hn] at hend
    rw [hn] at hle
    have hwalk : walk (visit window.min) history window.limit prev State.initial =
        walk (visit window.min) history n prev State.initial := walk_eq_of_end hle hend
    rw [target_eq_walk, target_eq_walk, hwalk, hlimit']
    rfl
  have hreads : readCount history prev n = n := by
    apply firstUpTo_eq (.inl rfl) le_rfl
    intro k hk
    exact height_ne_zero_of_lt_readCount (hn.symm ▸ hk)
  rw [hsame]
  exact exists_target spacing easiest hmax hlong
    ((congrArg _ hword).trans hreads) hdecoded

/-- Two walks read the same number of blocks, none of them with the time zero. The second one finds
no harder target among those that are averaged, and no shorter timespan. -/
structure NoHarder (window : WindowBounds) (S T : History) (a b : StoredBlock) (n : Nat) :
    Prop where
  reads : readCount S a window.limit = n ∧ readCount T b window.limit = n
  times : ∀ k < n, (read S a k).time ≠ 0 ∧ (read T b k).time ≠ 0
  targets : ∀ k < min n window.min.toNat, ∃ s t, (read S a k).target? = some s ∧
    (read T b k).target? = some t ∧ s ≤ t
  elapsed : (a.time.toNat : Int) - (read S a (n - 1)).time.toNat ≤
    b.time.toNat - (read T b (n - 1)).time.toNat

/-- The seconds between the outermost of some blocks with positive times. -/
theorem toInt_elapsedAfter {blocks : Nat → StoredBlock} {last : Nat}
    (htimes : ∀ k < last, (blocks k).time ≠ 0) :
    (elapsedAfter blocks (last + 1)).toInt =
      ((blocks 0).time.toNat : Int) - (blocks last).time.toNat := by
  have hnewest := toInt_seconds (blocks 0).time
  have holdest := toInt_seconds (blocks last).time
  have := (blocks 0).time.toNat_lt
  have := (blocks last).time.toNat_lt
  rw [elapsedAfter_eq_sub htimes, toInt_sub_of_mem (by omega) (by omega), hnewest, holdest]

/-- Of two such walks the second one gives no harder target. -/
theorem NoHarder.exists_targets (h : NoHarder window S T a b n) (spacing : UInt32)
    (easiest : Target) (hheight : a.height = b.height) (hlong : tooShort a window = false)
    (hcount : n < 2 ^ 64) (htwo : expectedSeconds spacing n ≠ 2) :
    ∃ x y, target a S spacing window easiest = .ok x ∧
      target b T spacing window easiest = .ok y ∧ x ≤ y := by
  have hlong' : tooShort b window = false := by
    rw [← hlong, tooShort, tooShort, hheight]
  obtain ⟨hreads, hreads'⟩ := h.reads
  choose! s t hs ht hle using h.targets
  obtain ⟨x, hx, hvalue⟩ := exists_target_of_readCount spacing easiest hlong hreads hcount hs
  obtain ⟨y, hy, hvalue'⟩ := exists_target_of_readCount spacing easiest hlong' hreads' hcount ht
  refine ⟨x, y, hx, hy, ?_⟩
  have hmin : window.min.toNat ≤ a.height.toNat := by
    by_contra hshort
    rw [(Algorithm.tooShort_iff a window).2 (.inr (Nat.lt_of_not_le hshort))] at hlong
    exact Bool.noConfusion hlong
  have hwords : min n window.min.toNat + 1 < 2 ^ 64 := by
    have := a.height.toNat_lt
    omega
  have helapsed : (elapsedAfter (read S a) n).toInt ≤ (elapsedAfter (read T b) n).toInt := by
    cases n with
    | zero => exact le_rfl
    | succ last =>
      rw [toInt_elapsedAfter fun k hk => (h.times k (by omega)).1,
        toInt_elapsedAfter fun k hk => (h.times k (by omega)).2]
      exact h.elapsed
  show x.toNat ≤ y.toNat
  rw [hvalue, hvalue']
  apply scaledBy_mono
  · exact Target.toNat_lt _
  · exact averageOf_weightedAverage_mono hwords hle
  · exact limited_mono helapsed _
  · exact no_jump htwo

/-- A product that does not wrap around is not two, since a spacing has three seconds or more. -/
theorem expectedSeconds_ne_two (hspacing : 3 ≤ spacing.toNat) (hfits : n * spacing.toNat < 2 ^ 63) :
    expectedSeconds spacing n ≠ 2 := by
  intro htwo
  have hproduct := toInt_expectedSeconds hfits
  rw [htwo, ← Int.natCast_mul] at hproduct
  have hnat : 2 = n * spacing.toNat := Int.ofNat.inj hproduct
  have hn : n ≠ 0 := by
    rintro rfl
    omega
  have hle := Nat.le_mul_of_pos_left spacing.toNat (Nat.pos_of_ne_zero hn)
  omega

end Wave3

end Gravity

/-! ## Both together -/

open Gravity.Algorithm in
/-- The upper one of two blocks above a gap, a hundred seconds later. -/
def lateBlock : StoredBlock :=
  { upperBlock with header := { upperBlock.header with time := 1400000200 } }

open Gravity.Algorithm in
/-- The upper one of two blocks above a gap, one second later. -/
def nextSecondBlock : StoredBlock :=
  { upperBlock with header := { upperBlock.header with time := 1400000001 } }

namespace Gravity.Wave3

open Algorithm

theorem gap_below_nextSecondBlock :
    gappedHistory (read gappedHistory nextSecondBlock 1).prevBlockHash = none := by
  decide +kernel

theorem read_nextSecondBlock (k : Nat) :
    read gappedHistory nextSecondBlock (k + 1) = lowerBlock := by
  rw [read_eq_of_gap gap_below_nextSecondBlock, Nat.min_eq_right (Nat.le_add_left 1 k)]
  decide +kernel

/-- A lone block on one side, and on the other two blocks above a gap that are a second apart: the
second walk sees one second more. -/
theorem noHarder_nextSecondBlock {n : Nat} (hn : 2 ≤ n) (hcount : n < 2 ^ 64) :
    NoHarder ⟨1, .ofNat n⟩ (fun _ => none) gappedHistory upperBlock nextSecondBlock n := by
  obtain ⟨k, rfl⟩ : ∃ k, n = k + 2 := ⟨n - 2, by omega⟩
  have hlone (k : Nat) : read (fun _ => none) upperBlock k = upperBlock := read_of_missing rfl k
  obtain ⟨-, hlimit⟩ := limit_ofNat 1 (Nat.succ_ne_zero (k + 1)) hcount
  exact {
    reads := by
      rw [hlimit]
      exact ⟨readCount_of_missing rfl (by decide) _,
        readCount_of_gap gap_below_nextSecondBlock (by decide +kernel) _⟩
    times := by
      intro j _
      rw [hlone]
      refine ⟨by decide, ?_⟩
      cases j with
      | zero => decide
      | succ j =>
        rw [read_nextSecondBlock]
        decide
    targets := by
      intro j hj
      obtain rfl : j = 0 := Nat.lt_one_iff.1 (hj.trans_le (Nat.min_le_right _ 1))
      exact ⟨_, _, target?_upperBlock, target?_upperBlock, Nat.le_refl _⟩
    elapsed := by
      have hlast : k + 2 - 1 = k + 1 := rfl
      rw [hlast, hlone, read_nextSecondBlock]
      decide }

/-- A walk that averages its first target only, and of which the expected timespan wraps around to
two seconds. -/
theorem exists_target_of_two_seconds {history : History} {prev : StoredBlock} {spacing : UInt32}
    {n : Nat} {t : Target} (easiest : Target) (hlong : tooShort prev ⟨1, .ofNat n⟩ = false)
    (hn : 1 ≤ n) (hcount : n < 2 ^ 64) (htwo : expectedSeconds spacing n = 2)
    (hreads : readCount history prev (WindowBounds.limit ⟨1, .ofNat n⟩) = n)
    (ht : prev.target? = some t) :
    ∃ x, target prev history spacing ⟨1, .ofNat n⟩ easiest = .ok x ∧
      x.toNat = scaledBy t.toNat (limited (elapsedAfter (read history prev) n) 2).toInt 2 := by
  have hmin : min n 1 = 1 := Nat.min_eq_right hn
  have hdecoded : ∀ k < min n 1, (read history prev k).target? = some t := by
    intro k hk
    obtain rfl : k = 0 := by omega
    exact ht
  obtain ⟨x, hx, hvalue⟩ := exists_target_of_readCount spacing easiest hlong hreads hcount hdecoded
  refine ⟨x, hx, ?_⟩
  rw [htwo] at hvalue
  have haverage : averageOf weightedAverage (fun _ => t) (min n (1 : UInt64).toNat) = t :=
    congrArg (averageOf weightedAverage fun _ => t) hmin
  rw [haverage] at hvalue
  exact hvalue

/-- Where the expected timespan wraps around to two seconds, the second one halves the target. -/
theorem exists_harder_target {spacing : UInt32} {n : Nat} (easiest : Target) (hn : 2 ≤ n)
    (hcount : n < 2 ^ 64) (htwo : expectedSeconds spacing n = 2) :
    ∃ x y, target upperBlock (fun _ => none) spacing ⟨1, .ofNat n⟩ easiest = .ok x ∧
      target nextSecondBlock gappedHistory spacing ⟨1, .ofNat n⟩ easiest = .ok y ∧ y < x := by
  have hcompared := noHarder_nextSecondBlock hn hcount
  obtain ⟨hreads, hreads'⟩ := hcompared.reads
  obtain ⟨x, hx, hvalue⟩ := exists_target_of_two_seconds easiest rfl (by omega) hcount
    htwo hreads target?_upperBlock
  obtain ⟨y, hy, hvalue'⟩ := exists_target_of_two_seconds easiest rfl (by omega) hcount
    htwo hreads' target?_upperBlock
  refine ⟨x, y, hx, hy, ?_⟩
  obtain ⟨k, rfl⟩ : ∃ k, n = k + 2 := ⟨n - 2, by omega⟩
  have hzero : elapsedAfter (read (fun _ => none) upperBlock) (k + 2) = 0 := by
    apply Int64.toInt_inj.1
    rw [toInt_elapsedAfter fun j hj => (hcompared.times j (by omega)).1, read_of_missing rfl,
      read_of_missing rfl, Int.sub_self]
    rfl
  have hone : elapsedAfter (read gappedHistory nextSecondBlock) (k + 2) = 1 := by
    apply Int64.toInt_inj.1
    rw [toInt_elapsedAfter fun j hj => (hcompared.times j (by omega)).2, read_nextSecondBlock]
    decide +kernel
  rw [hzero] at hvalue
  rw [hone] at hvalue'
  show y.toNat < x.toNat
  rw [hvalue, hvalue']
  decide +kernel

end Gravity.Wave3

end HeaderRules
