import HeaderRules.Saturating

/-!
# Timespan limits

A ratio retarget measures how long the blocks of an interval took and compares that with how long
they should have taken. The measured timespan is first moved into limits around the target
timespan, by a `TimespanClamp`. All divisions truncate toward zero.
-/

namespace HeaderRules

/-- Limits for a measured timespan. -/
inductive TimespanClamp where
  /-- From the target over `minDivisor` to the target times `maxMultiplier`. -/
  | ratio (minDivisor maxMultiplier : Int64)
  /-- The deviation from the target is divided by `dampening`; the result stays between three
  quarters and one and a half of the target. -/
  | dampened (dampening : Int64)
deriving DecidableEq, Repr

namespace TimespanClamp

/-- From a quarter of the target to four times the target. -/
def classic : TimespanClamp := .ratio 4 4

/-- Moves a measured timespan into the limits around the target timespan. -/
def apply (clamp : TimespanClamp) (timespan target : Int64) : Int64 :=
  match clamp with
  | ratio minDivisor maxMultiplier =>
    min (max timespan (target / minDivisor)) (satMul64 target maxMultiplier)
  | dampened dampening =>
    let moved := target + (timespan - target) / dampening
    min (max moved (target - target / 4)) (target + target / 2)

end TimespanClamp

/-- Limits that hold from a height of the previous block on. -/
structure TimespanBand where
  fromHeight : UInt32
  clamp : TimespanClamp
deriving DecidableEq, Repr

/-- The limits of Dogecoin, the highest band first. -/
def dogecoinBands : List TimespanBand := [
  ⟨145000, .dampened 8⟩,
  ⟨10000, .classic⟩,
  ⟨5000, .ratio 8 4⟩,
  ⟨0, .ratio 16 4⟩]

end HeaderRules
