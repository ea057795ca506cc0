import HeaderRules.Proofs.RetargetEnvelope

/-!
# Retargets of a steady chain

On a steady chain every block is made exactly the target spacing after its parent. The time between
two blocks is then the number of links between them times the spacing (`Steady.exists_start`), and
an interval of `n` blocks takes as long as it should only if `n` links are measured. A chain that
measures one block further back keeps its target. Where the interval is measured from its own first
block, which is always so for the first interval of a chain, one of the `n` spacings is missing, and
the target falls by an `n`th (`steady_chain_keeps_target_or_loses_one_spacing`).

Neither limit of the timespan matters: from two blocks on, `n - 1` spacings are at least half of the
target timespan.
-/

namespace HeaderRules

open Outcome

/-! ## The time that steady blocks take -/

/-- Each of the next `n` links from a block leads to a stored block that is exactly `spacing`
seconds older. -/
def Steady (history : History) (spacing : Nat) : Nat → StoredBlock → Prop
  | 0, _ => True
  | n + 1, b => ∃ p, history b.prevBlockHash = some p ∧ b.time.toNat = p.time.toNat + spacing ∧
      Steady history spacing n p

/-- The spacings between steady blocks add up. -/
theorem Steady.exists_start {history : History} {spacing n : Nat} {b : StoredBlock}
    (h : Steady history spacing n b) :
    ∃ start, history.ancestor n b = .ok start ∧
      b.time.toNat = start.time.toNat + n * spacing := by
  induction n generalizing b with
  | zero => exact ⟨b, rfl, by omega⟩
  | succ n ih =>
    obtain ⟨p, hp, htime, hsteady⟩ := h
    obtain ⟨start, hstart, hbefore⟩ := ih hsteady
    refine ⟨start, History.ancestor_succ_eq_ok_iff.2 ⟨p, hp, hstart⟩, ?_⟩
    rw [htime, hbefore, Nat.succ_mul, Nat.add_assoc]

/-- From half of the target timespan on, and up to four times it, the classic limits do nothing. -/
theorem TimespanClamp.exact_classic_of_mem {timespan target : Int} (hlow : target ≤ 2 * timespan)
    (hhigh : timespan ≤ 4 * target) (hpos : 0 ≤ target) :
    classic.exact timespan target = timespan := by
  have hfour : (4 : Int64).toInt = 4 := rfl
  rw [classic, exact, hfour, Int.tdiv_eq_ediv_of_nonneg hpos]
  omega

namespace ChainParams

variable {c : ChainParams} {prev : StoredBlock} {history : History} {old : Target}

/-! ## The constants of a fixed schedule -/

section

variable (hfixed : c.params.retarget = .fixed)

include hfixed

theorem window?_of_fixed (height : UInt32) : c.params.window? height = none := by
  rw [Params.window?, hfixed]

theorem timespanClamp_of_fixed (height : UInt32) : c.params.timespanClamp height = .classic := by
  rw [Params.timespanClamp, hfixed]

theorem targetTimespanAt_of_fixed (height : UInt32) :
    c.params.targetTimespanAt height = c.params.targetTimespan := by
  rw [Params.targetTimespanAt, hfixed]

/-- After the first interval an offset of one block measures as many links as the interval has
blocks, and in all other cases one link is missing. -/
theorem toNat_retargetBlockspan_of_fixed
    (hoffset : c.params.intervalOffset = 0 ∨ c.params.intervalOffset = 1) (height : UInt32) :
    (c.params.retargetBlockspan height).toNat =
      if c.params.intervalOffset = 1 ∧ c.params.interval < nextHeight height then
        c.params.interval.toNat
      else c.params.interval.toNat - 1 := by
  have hpos := c.timing_pos.2.2
  have hlt := c.params.interval.toNat_lt
  have hzero : (0 : UInt32).toNat = 0 := rfl
  have hone : (1 : UInt32).toNat = 1 := rfl
  have hinterval : c.params.intervalAt height = c.params.interval := by
    rw [Params.intervalAt, hfixed]
  simp only [Params.retargetBlockspan, hinterval, toNat_satAdd, toNat_satSub, ← UInt32.not_lt,
    ite_not]
  by_cases hlater : c.params.interval < nextHeight height
  · rcases hoffset with hno | hyes
    · simp only [hlater, hno, if_true, hzero, hone, and_true]
      rw [if_neg (by decide)]
      omega
    · simp only [hlater, hyes, if_true, hone, and_true]
      omega
  · simp only [hlater, if_false, and_false, hzero, hone]
    omega

end

/-! ## The required target -/

/-- A fixed schedule scales the old target by the links that are measured over the blocks of an
interval. -/
theorem exists_requiredTarget_of_steady {n interval spacing : Nat}
    (hfixed : c.params.retarget = .fixed)
    (hspan : (c.params.retargetBlockspan prev.height).toNat = n)
    (htimespan : c.params.targetTimespan.toNat = interval * spacing)
    (hlow : interval ≤ 2 * n) (hhigh : n ≤ interval)
    (hsteady : Steady history spacing n prev) (hold : prev.target? = some old) :
    ∃ t, c.requiredTarget prev history = .ok t ∧
      t.toNat = min c.maxTarget.toNat (old.toNat * n / interval) := by
  have hratio := window?_of_fixed hfixed (nextHeight prev.height)
  have hclassic := timespanClamp_of_fixed hfixed prev.height
  have hclamp : (c.params.timespanClamp prev.height).Positive := by
    rw [hclassic]
    exact ⟨by decide, by decide⟩
  have htarget : (c.params.targetTimespanAt prev.height).toNat = interval * spacing := by
    rw [targetTimespanAt_of_fixed hfixed, htimespan]
  have hpos : 0 < interval * spacing := htimespan ▸ c.timing_pos.2.1
  obtain ⟨start, hstart, htime⟩ := hsteady.exists_start
  rw [← hspan] at hstart
  obtain ⟨scaled, hscaled, -⟩ := exists_ratioTarget hclamp (htarget ▸ hpos) hstart hold
  have ht := requiredTarget_of_no_window hratio history
  rw [hscaled] at ht
  refine ⟨_, ht, ?_⟩
  have hvalue := toNat_requiredTarget hratio hclamp htarget hpos hold hstart ht
  -- The limits leave the measured timespan as it is.
  have htimespan_eq : TimespanClamp.classic.exact (prev.time.toNat - start.time.toNat)
      ((interval * spacing : Nat) : Int) = ((n * spacing : Nat) : Int) := by
    have hdifference : (prev.time.toNat : Int) - start.time.toNat = (n * spacing : Nat) := by
      omega
    have hlow' : interval * spacing ≤ 2 * (n * spacing) := by
      rw [← Nat.mul_assoc]
      exact Nat.mul_le_mul_right spacing hlow
    have hhigh' : n * spacing ≤ interval * spacing := Nat.mul_le_mul_right spacing hhigh
    rw [hdifference]
    apply TimespanClamp.exact_classic_of_mem <;> omega
  have hspacing : 0 < spacing := Nat.pos_of_mul_pos_left hpos
  have hcancel : old.toNat * (n * spacing) / (interval * spacing) = old.toNat * n / interval := by
    rw [← Nat.mul_assoc, Nat.mul_div_mul_right _ _ hspacing]
  rw [hclassic, htimespan_eq, ← Int.natCast_mul, ← Int.natCast_ediv, hcancel] at hvalue
  omega

/-- On a chain with a fixed schedule, let an interval of two blocks or more take its number of
blocks times the spacing, and let the offset be at most one block. If the blocks that the timespan
is measured over are stored and each was made exactly one spacing after its parent, the required
target is, up to the maximum, the old one where the offset counts, which is where the next height is
beyond the first interval, and the old one less its part of one block in the interval elsewhere. -/
theorem steady_chain_keeps_target_or_loses_one_spacing
    (hfixed : c.params.retarget = .fixed)
    (htimespan : c.params.targetTimespan.toNat =
      c.params.interval.toNat * c.params.targetSpacing.toNat)
    (hinterval : 2 ≤ c.params.interval.toNat)
    (hoffset : c.params.intervalOffset = 0 ∨ c.params.intervalOffset = 1)
    (hsteady : Steady history c.params.targetSpacing.toNat
      (c.params.retargetBlockspan prev.height).toNat prev)
    (hold : prev.target? = some old) :
    ∃ t, c.requiredTarget prev history = .ok t ∧
      t.toNat =
        if c.params.intervalOffset = 1 ∧ c.params.interval < nextHeight prev.height then
          min c.maxTarget.toNat old.toNat
        else min c.maxTarget.toNat
          (old.toNat * (c.params.interval.toNat - 1) / c.params.interval.toNat) := by
  have hspan := toNat_retargetBlockspan_of_fixed hfixed hoffset prev.height
  split_ifs at hspan ⊢ with hlater
  · obtain ⟨t, ht, hvalue⟩ := exists_requiredTarget_of_steady hfixed hspan htimespan (by omega)
      le_rfl (hspan ▸ hsteady) hold
    rw [Nat.mul_div_cancel _ (by omega)] at hvalue
    exact ⟨t, ht, hvalue⟩
  · exact exists_requiredTarget_of_steady hfixed hspan htimespan (by omega) (Nat.sub_le _ _)
      (hspan ▸ hsteady) hold

/-! ### Two intervals of two blocks -/

/-- Dogecoin with a fixed schedule and intervals of two blocks. -/
def steadyDogecoin : ChainParams where
  params := { Params.dogecoin with
    targetTimespan := 120
    interval := 2
    retarget := .fixed }
  maxTarget := dogecoin.maxTarget
  genesis := dogecoin.genesis
  validated := dogecoin.validated

/-- The blocks of a steady chain of Dogecoin by their heights. -/
def steadyBlock (height : Nat) : StoredBlock where
  hash := numberedHash height
  header := { bareHeader (.ofNat (1400000000 + 60 * height)) ⟨0x1c00ffff⟩ with
    prevBlockHash := numberedHash (height - 1) }
  height := .ofNat height

/-- The history that holds the blocks at the heights 0, 1 and 2. -/
def steadyHistory : History := fun hash =>
  if hash = numberedHash 0 then some (steadyBlock 0)
  else if hash = numberedHash 1 then some (steadyBlock 1)
  else if hash = numberedHash 2 then some (steadyBlock 2)
  else none

/-- The first interval of two blocks halves the target, and the second one keeps it. -/
theorem steadyDogecoin_halves_target_once :
    (∃ t, steadyDogecoin.requiredTarget (steadyBlock 1) steadyHistory = .ok t ∧
      t.toNat = 0xffff * 256 ^ 25 / 2) ∧
    ∃ t, steadyDogecoin.requiredTarget (steadyBlock 3) steadyHistory = .ok t ∧
      t.toNat = 0xffff * 256 ^ 25 := by
  have hold (height : Nat) :
      (steadyBlock height).target? = some (.ofNat (0xffff * 256 ^ 25)) := by
    show Target.ofCompact? ⟨0x1c00ffff⟩ = _
    decide +kernel
  have hfirst : Steady steadyHistory 60 1 (steadyBlock 1) :=
    ⟨steadyBlock 0, by decide +kernel, by decide +kernel, trivial⟩
  have hsecond : Steady steadyHistory 60 2 (steadyBlock 3) :=
    ⟨steadyBlock 2, by decide +kernel, by decide +kernel, steadyBlock 1, by decide +kernel,
      by decide +kernel, trivial⟩
  constructor
  · obtain ⟨t, ht, hvalue⟩ := steady_chain_keeps_target_or_loses_one_spacing (c := steadyDogecoin)
      rfl rfl (by decide) (.inr rfl) hfirst (hold 1)
    exact ⟨t, ht, hvalue.trans (by decide +kernel)⟩
  · obtain ⟨t, ht, hvalue⟩ := steady_chain_keeps_target_or_loses_one_spacing (c := steadyDogecoin)
      rfl rfl (by decide) (.inr rfl) hsecond (hold 3)
    exact ⟨t, ht, hvalue.trans (by decide +kernel)⟩

end ChainParams

end HeaderRules
