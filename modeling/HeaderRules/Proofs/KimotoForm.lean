import HeaderRules.Proofs.AverageDeviation
import HeaderRules.Proofs.GapPadding
import HeaderRules.Proofs.GravityRun

/-!
# The Kimoto Gravity Well without its loop

The walk carries six quantities from block to block and may end at any of them. What it computes is
decided by one number, that of the blocks read (`Kimoto.endCount`): the target is their average,
scaled by the seconds back to the last of them over the seconds that so many blocks should have
taken (`kimoto_scales_average_where_walk_ends`). The test that ends the walk stays closed here: all
that matters is which number of blocks passes it first.
-/

namespace HeaderRules.Gravity.Kimoto

open Algorithm (upperBlock gappedHistory target?_upperBlock)

variable {prev : StoredBlock} {history : History} {spacing : UInt32} {window : WindowBounds}
  {easiest : Target} {targets : Nat → Target}

/-- Where there is enough history, at least one block is read. -/
theorem endCount_pos (hmax : window.max ≠ 0) (hheight : prev.height ≠ 0) :
    0 < endCount prev history spacing window := by
  have hlimit : window.limit ≠ 0 := by
    rw [WindowBounds.limit_eq hmax]
    exact (WindowBounds.toNat_max_pos hmax).ne'
  have hread : 0 < readCount history prev window.limit := readCount_pos hlimit hheight
  rcases Algorithm.kimoto.endCount_eq_readCount_or prev history spacing window with hall | hstops
  · exact hread.trans_eq hall.symm
  · exact hstops.1

/-- A window that may not be left early is read to its end. -/
theorem endCount_of_le_min
    (hmin : readCount history prev window.limit ≤ window.min.toNat) :
    endCount prev history spacing window = readCount history prev window.limit := by
  rcases Algorithm.kimoto.endCount_eq_readCount_or prev history spacing window with hall | hstops
  · exact hall
  · exact le_antisymm (firstUpTo_le _ _) (hmin.trans hstops.2.1)

/-- The last state of the walk, scaled. -/
theorem toNat_result_stateAfter {k : Nat} (hk : 0 < k) (blocks : Nat → StoredBlock) :
    (Algorithm.kimoto.result spacing
        (stateAfter prev.time spacing targets blocks k)).toNat =
      scaledBy (averageOf incrementalAverage targets k).toNat
        (elapsed prev.time (blocks (k - 1))).toInt (expectedSeconds spacing k).toInt := by
  obtain ⟨last, rfl⟩ : ∃ last, k = last + 1 := Nat.exists_eq_succ_of_ne_zero hk.ne'
  exact toNat_scale _ _ _

/-- A block so high that a window of 2³¹ + 1 blocks can be read back from it. -/
def highBlock : StoredBlock := { upperBlock with height := 0x80000001 }

/-- A lone block is read 2³¹ + 1 times at the greatest spacing. The product is negative, so that the
average is not scaled; over the integers it would be, by five seconds out of more than 2⁶³. -/
theorem kimoto_keeps_average_of_wrapped_product :
    target highBlock (fun _ => none) 4294967295 ⟨0x80000001, 0x80000001⟩ .greatest =
        .ok (.ofNat (0xffff * 256 ^ 25)) ∧
      (expectedSeconds 4294967295 0x80000001).toInt < 0 ∧
      scaledBy (0xffff * 256 ^ 25) 5 (0x80000001 * 4294967295) < 2 ^ 160 := by
  have hread : readCount (fun _ => none) highBlock 0x80000001 = 0x80000001 :=
    readCount_of_missing rfl (by decide) _
  have hend : endCount highBlock (fun _ => none) 4294967295 ⟨0x80000001, 0x80000001⟩ =
      0x80000001 := (endCount_of_le_min hread.le).trans hread
  have hdecoded (k : Nat) : (read (fun _ => none) highBlock k).target? =
      some (.ofNat (0xffff * 256 ^ 25)) := by
    rw [read_of_missing rfl]
    exact target?_upperBlock
  have hwalk : target highBlock (fun _ => none) 4294967295 ⟨0x80000001, 0x80000001⟩ .greatest =
      .ok (Algorithm.kimoto.result 4294967295 (stateAfter highBlock.time 4294967295
        (fun _ => .ofNat (0xffff * 256 ^ 25)) (read (fun _ => none) highBlock) 0x80000001)) := by
    rw [← hend]
    exact Algorithm.target_eq_ok (w := .kimoto) (by decide) (by decide +kernel)
      fun k _ => hdecoded k
  have hnegative : (expectedSeconds 4294967295 0x80000001).toInt < 0 := by decide +kernel
  -- All the targets are the same, and so is their average.
  have haverage : (averageOf incrementalAverage (fun _ => .ofNat (0xffff * 256 ^ 25))
      0x80000001).toNat = (Target.ofNat (0xffff * 256 ^ 25)).toNat := by
    have hbounds := averageOf_mem keepsBounds_incrementalAverage le_rfl (n := 0x80000001)
      (by decide) (by decide) fun _ _ => ⟨le_refl (Target.ofNat (0xffff * 256 ^ 25)).toNat, le_rfl⟩
    exact le_antisymm hbounds.2 hbounds.1
  refine ⟨?_, hnegative, by decide +kernel⟩
  rw [hwalk, Except.ok.injEq, ← Target.toNat_inj, toNat_result_stateAfter (by decide),
    scaledBy_of_not_pos (.inr hnegative.le)]
  exact haverage

end HeaderRules.Gravity.Kimoto
