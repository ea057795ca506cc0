import HeaderRules.Proofs.CompactCodec
import Mathlib.Order.Bounds.Defs

/-!
# Targets that a code can denote

A code carries three digits, so that most targets have none. Writing a target as a code rounds it
down: what the code denotes is the greatest target up to the given one that any code denotes
(`encoded_target_is_greatest_below`), whatever spelling that other code has. A target has a code
exactly if it is a multiple of the unit that its own size leaves to a code (`hasCode_iff_dvd`). A
code of greater exponent has a coarser unit, and one of smaller exponent stays below every target of
this size; these are the two cases of the argument.
-/

namespace HeaderRules.Target

variable {s t u : Target}

/-! ## Sizes -/

/-- A greater target has no shorter code. -/
theorem exponent_toCompact_mono (h : s ≤ t) : s.toCompact.exponent ≤ t.toCompact.exponent := by
  have hle : s.toNat ≤ t.toNat := h
  have hhigh := (t.exponent_toCompact_le_iff _).1 le_rfl
  rw [exponent_toCompact_le_iff]
  omega

/-- The unit of a target: one in the last of the three digits that its code keeps. -/
def unit (t : Target) : Nat := 256 ^ (t.toCompact.exponent - 3)

/-! ## Targets with a code -/

/-- Some code denotes the target. -/
def HasCode (t : Target) : Prop := ∃ c, ofCompact? c = some t

/-! ## What is left of a target -/

/-- What its own code keeps of a target. -/
def roundDown (t : Target) : Target := t.maskToPrecisionOf t.toCompact

theorem roundDown_le (t : Target) : t.roundDown ≤ t := t.mask_le t.toCompact

theorem toCompact_roundDown (t : Target) : t.roundDown.toCompact = t.toCompact :=
  t.toCompact_mask_toCompact

theorem hasCode_roundDown (t : Target) : t.roundDown.HasCode := ⟨_, t.ofCompact?_toCompact⟩

/-- A target loses what it has below its unit. -/
theorem toNat_roundDown (t : Target) : t.roundDown.toNat = t.toNat / t.unit * t.unit := by
  have hhigh := (t.exponent_toCompact_le_iff _).1 le_rfl
  rw [roundDown, toNat_maskToPrecisionOf, digitWindow_eq_round, Nat.mod_eq_of_lt (by omega), unit]

theorem roundDown_eq_self_iff_dvd (t : Target) : t.roundDown = t ↔ t.unit ∣ t.toNat := by
  rw [← toNat_inj, toNat_roundDown]
  exact ⟨fun h => h ▸ Nat.dvd_mul_left _ _, Nat.div_mul_cancel⟩

theorem hasCode_iff_dvd (t : Target) : t.HasCode ↔ t.unit ∣ t.toNat := by
  constructor
  · rintro ⟨c, hc⟩
    rcases Nat.eq_zero_or_pos t.toNat with hzero | hpos
    · rw [hzero]
      exact Nat.dvd_zero _
    · -- The code of the target is the shortest one, and has the finest unit.
      obtain ⟨hdvd, hsize⟩ := unit_dvd_of_ofCompact? hc hpos
      have hshort := (t.exponent_toCompact_le_iff _).2 hsize
      exact (pow_dvd_pow 256 (Nat.sub_le_sub_right hshort 3)).trans hdvd
  · intro hdvd
    rw [← (roundDown_eq_self_iff_dvd t).2 hdvd]
    exact t.hasCode_roundDown

theorem roundDown_eq_self_iff (t : Target) : t.roundDown = t ↔ t.HasCode := by
  rw [roundDown_eq_self_iff_dvd, hasCode_iff_dvd]

/-- Rounding a target down does not pass another target that has a code. -/
theorem le_roundDown (hu : u.HasCode) (hle : u ≤ t) : u ≤ t.roundDown := by
  rcases Nat.lt_or_eq_of_le (exponent_toCompact_mono hle) with hshorter | hsame
  · -- What is left of the target still has its size, which the other one does not reach.
    rw [← t.toCompact_roundDown] at hshorter
    by_contra hnot
    exact Nat.not_lt_of_le (exponent_toCompact_mono (Nat.le_of_not_le hnot)) hshorter
  · -- The two share a unit, of which the other one is a multiple.
    have hunit : u.unit = t.unit := by rw [unit, unit, hsame]
    have hdvd := (hasCode_iff_dvd u).1 hu
    rw [hunit] at hdvd
    show u.toNat ≤ t.roundDown.toNat
    calc u.toNat = u.toNat / t.unit * t.unit := (Nat.div_mul_cancel hdvd).symm
      _ ≤ t.toNat / t.unit * t.unit :=
        Nat.mul_le_mul_right _ (Nat.div_le_div_right hle)
      _ = t.roundDown.toNat := (toNat_roundDown t).symm

/-- Decoding the code of a target succeeds, and gives the greatest target up to it that any code
denotes. That target has the same code and is what the precision of the code leaves both of itself
and of the given target, which it equals exactly if that has a code. -/
theorem encoded_target_is_greatest_below (t : Target) :
    ∃ kept, ofCompact? t.toCompact = some kept ∧
      IsGreatest {u : Target | u ≤ t ∧ ∃ c, ofCompact? c = some u} kept ∧
      kept.toCompact = t.toCompact ∧
      kept.maskToPrecisionOf t.toCompact = kept ∧ t.maskToPrecisionOf t.toCompact = kept ∧
      (kept = t ↔ ∃ c, ofCompact? c = some t) := by
  have hcode := t.toCompact_roundDown
  refine ⟨t.roundDown, t.ofCompact?_toCompact, ⟨⟨t.roundDown_le, t.hasCode_roundDown⟩, ?_⟩, hcode,
    ?_, rfl, t.roundDown_eq_self_iff⟩
  · rintro u ⟨hle, hu⟩
    exact le_roundDown hu hle
  · -- Rounding a second time finds nothing to drop.
    rw [← hcode]
    exact (roundDown_eq_self_iff _).2 t.hasCode_roundDown

/-- The greatest target would reach the sign bit, and keeps only two of its thirty-two bytes. -/
example : ofCompact? greatest.toCompact = some (.ofNat (0xffff * 256 ^ 30)) := by decide +kernel

end HeaderRules.Target
