import HeaderRules.Proofs.ValidatedChain
import HeaderRules.Retarget.Difficulty

/-!
# The check at a retarget point

At a retarget point the judgement of a header is a comparison of codes: the required target is
reduced to the precision of the declared code, encoded, and compared with it. This module says what
the comparison gives, exact or tolerant, and which codes pass an exact one.
-/

namespace HeaderRules

open Outcome

/-- A header of which only the time and the code matter. -/
def bareHeader (time : UInt32) (bits : CompactTarget) : Header :=
  { (default : Header) with time := time, bits := bits }

/-! ## The comparison -/

namespace ChainParams

variable {c : ChainParams} {prev : StoredBlock} {history : History} {t : Target}

/-- The required target is the computed one, up to the easiest that the chain allows. -/
theorem requiredTarget_eq_ok_iff : c.requiredTarget prev history = .ok t ↔
    ∃ u, c.computedTarget prev history = .ok u ∧ t.toNat = min c.maxTarget.toNat u.toNat := by
  rw [requiredTarget, map_eq_ok_iff]
  refine exists_congr fun u => and_congr_right fun _ => ?_
  have hlimit : (if u > c.maxTarget then c.maxTarget else u).toNat =
      min c.maxTarget.toNat u.toNat := by
    split_ifs with h
    · exact (Nat.min_eq_left (Nat.le_of_lt h)).symm
    · exact (Nat.min_eq_right (Nat.le_of_not_lt h)).symm
  rw [← hlimit, Target.toNat_inj, eq_comm]

/-- The required target is not easier than the chain allows. -/
theorem requiredTarget_le (ht : c.requiredTarget prev history = .ok t) : t ≤ c.maxTarget := by
  obtain ⟨computed, -, hlimit⟩ := requiredTarget_eq_ok_iff.1 ht
  exact hlimit.trans_le (Nat.min_le_left _ _)

/-- Once a target is required, the comparison with it is the whole check. -/
theorem checkDifficulty_eq_compareDeclared (hpoint : c.params.shouldRetarget prev.height = true)
    (ht : c.requiredTarget prev history = .ok t) (next : Header) :
    c.checkDifficulty prev next history =
      c.compareDeclared (nextHeight prev.height) t next.bits := by
  rw [checkDifficulty, if_pos hpoint, ht]
  rfl

/-- Without a tolerance only the code of the reduced target passes. -/
theorem compareDeclared_of_strict {height : UInt32} (hstrict : c.params.toleranceAt height = none)
    (t : Target) (bits : CompactTarget) :
    c.compareDeclared height t bits =
      if (t.maskToPrecisionOf bits).toCompact = bits then .ok ()
      else .error (.difficultyMismatch height (t.maskToPrecisionOf bits).toCompact bits) := by
  simp only [compareDeclared, hstrict, bne_iff_ne, ne_eq, ite_not]

/-- With a tolerance the distance of the two difficulties decides. -/
theorem compareDeclared_of_tolerance {height : UInt32} {tolerance : Float}
    (htolerance : c.params.toleranceAt height = some tolerance) (t : Target)
    (bits : CompactTarget) :
    c.compareDeclared height t bits =
      if exceedsTolerance (t.maskToPrecisionOf bits).toCompact bits tolerance then
        .error (.difficultyMismatch height (t.maskToPrecisionOf bits).toCompact bits)
      else .ok () := by
  simp only [compareDeclared, htolerance]

/-- A header passes at a strict retarget point exactly if it declares the code of the required
target, reduced to the precision of that very code. -/
theorem checkDifficulty_eq_ok_iff (hpoint : c.params.shouldRetarget prev.height = true)
    (hstrict : c.params.toleranceAt (nextHeight prev.height) = none)
    (ht : c.requiredTarget prev history = .ok t) (next : Header) :
    c.checkDifficulty prev next history = .ok () ↔
      (t.maskToPrecisionOf next.bits).toCompact = next.bits := by
  rw [checkDifficulty_eq_compareDeclared hpoint ht, compareDeclared_of_strict hstrict]
  split_ifs with h
  · exact iff_of_true rfl h
  · exact iff_of_false nofun h

end ChainParams

end HeaderRules
