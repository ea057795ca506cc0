import HeaderRules.Proofs.ValidatedChain

/-!
# The schedule of a chain

At which heights a chain retargets, which algorithm does it, and how far back a ratio retarget
measures. The window of a height is what tells the algorithms apart: a gravity-well algorithm reads
the blocks of its window, and where there is none a ratio retarget measures an interval. Such a
retarget happens only where an interval ends, so that there are enough blocks to measure
(`retargetBlockspan_le`).
-/

namespace HeaderRules

/-- The next height as a number. -/
theorem toNat_nextHeight (height : UInt32) :
    (nextHeight height).toNat = min (height.toNat + 1) 0xffffffff := toNat_satAdd height 1

namespace Params

variable {p : Params}

/-! ## Retarget points -/

/-- The window of the gravity-well algorithm that computes the target of a height, if it is not a
ratio retarget that does. -/
def window? (p : Params) (height : UInt32) : Option WindowBounds :=
  match p.retarget with
  | .gravityWell schedule =>
    match schedule.phase height with
    | .ratio => none
    | .kimotoGravityWell => some schedule.kgwWindow
    | .darkGravityWave => some schedule.dgwWindow
    | .darkGravityWave3 => some schedule.dgw3Window
  | _ => none

/-- Every block is retargeted exactly where a gravity-well algorithm is in force. -/
theorem everyBlock_eq_isSome (height : UInt32) :
    p.everyBlock height = (p.window? height).isSome := by
  rw [everyBlock, window?]
  cases p.retarget with
  | fixed => rfl
  | varying => rfl
  | gravityWell schedule =>
    simp only [GravitySchedule.phase]
    by_cases hstart : height < schedule.kgwHeight
    · rw [if_pos hstart]
      exact decide_eq_false (UInt32.not_le.2 hstart)
    · rw [if_neg hstart]
      have hany : decide (height ≥ schedule.kgwHeight) = true :=
        decide_eq_true (UInt32.not_lt.1 hstart)
      rw [hany]
      split_ifs <;> rfl

/-- A height is a retarget point where a gravity-well algorithm is in force and where an interval
ends. -/
theorem shouldRetarget_iff {height : UInt32} :
    p.shouldRetarget height = true ↔
      (p.window? (nextHeight height)).isSome = true ∨
        0 < (p.intervalAt height).toNat ∧
          (p.intervalAt height).toNat ∣ (nextHeight height).toNat := by
  have hpos : p.intervalAt height ≠ 0 ↔ 0 < (p.intervalAt height).toNat := by
    rw [ne_eq, ← UInt32.toNat_inj, Nat.pos_iff_ne_zero]
    rfl
  have hdvd : nextHeight height % p.intervalAt height = 0 ↔
      (p.intervalAt height).toNat ∣ (nextHeight height).toNat := by
    rw [← UInt32.toNat_inj, UInt32.toNat_mod, Nat.dvd_iff_mod_eq_zero]
    rfl
  simp only [shouldRetarget, Bool.or_eq_true, everyBlock_eq_isSome, Bool.and_eq_true, bne_iff_ne,
    beq_iff_eq, hpos, hdvd]

/-! ## The measured interval -/

/-- Where an interval ends and the offset is at most one block, the measured interval does not start
before the first block. -/
theorem retargetBlockspan_le {height : UInt32} (hoffset : p.intervalOffset ≤ 1)
    (hpos : 0 < (p.intervalAt height).toNat)
    (hend : (p.intervalAt height).toNat ∣ (nextHeight height).toNat) :
    p.retargetBlockspan height ≤ height := by
  have hoffset : p.intervalOffset.toNat ≤ 1 := UInt32.le_iff_toNat_le.1 hoffset
  have hone : (1 : UInt32).toNat = 1 := rfl
  have hheight := height.toNat_lt
  have hnext := toNat_nextHeight height
  have hinterval := Nat.le_of_dvd (by omega) hend
  rw [UInt32.le_iff_toNat_le, retargetBlockspan, toNat_satAdd, toNat_satSub, hone]
  by_cases hfirst : nextHeight height ≤ p.intervalAt height
  · -- The first interval ends here, and is measured without the offset.
    have hle := UInt32.le_iff_toNat_le.1 hfirst
    rw [if_pos hfirst, UInt32.toNat_zero]
    omega
  · -- Another interval ends before this one, so there is a block for the offset.
    have hlt := UInt32.lt_iff_toNat_lt.1 (UInt32.not_le.1 hfirst)
    have hbefore := Nat.le_of_dvd (Nat.sub_pos_of_lt hlt) (Nat.dvd_sub hend dvd_rfl)
    rw [if_neg hfirst]
    omega

end Params

/-! ## Validated schedules -/

namespace ChainParams

variable (c : ChainParams)

/-- No timing constant of a validated chain is zero. -/
theorem timing_pos : 0 < c.params.targetSpacing.toNat ∧ 0 < c.params.targetTimespan.toNat ∧
    0 < c.params.interval.toNat := by
  have htiming := (Params.validate_eq_ok_iff.1 c.validated).2.2.2.1
  simp only [Params.hasZeroTiming, Bool.or_eq_false_iff, beq_eq_false_iff_ne, ne_eq,
    ← UInt32.toNat_inj, UInt32.toNat_zero] at htiming
  omega

/-- The interval is positive at every height if the fast one is. -/
theorem intervalAt_pos
    (hfast : ∀ fastHeight fastInterval bands,
      c.params.retarget = .varying fastHeight fastInterval bands → 1 ≤ fastInterval)
    (height : UInt32) : 0 < (c.params.intervalAt height).toNat := by
  have hinterval := c.timing_pos.2.2
  rw [Params.intervalAt]
  split
  · next fastHeight fastInterval bands hvarying =>
    have hone := UInt32.le_iff_toNat_le.1 (hfast fastHeight fastInterval bands hvarying)
    split_ifs
    · exact hone
    · exact hinterval
  · exact hinterval

end ChainParams

end HeaderRules
