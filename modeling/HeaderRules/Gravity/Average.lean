import HeaderRules.Saturating
import HeaderRules.Target

/-!
# Averages of targets

The gravity-well algorithms average the targets of a window without keeping them, one target at a
time. Two recurrences are in use. The incremental one moves the average by a fraction of its
distance to the new target; the weighted one is a running mean that counts the first target twice.
Both truncate at every step. The last step of every algorithm scales an average by the ratio of two
timespans.
-/

namespace HeaderRules.Gravity

/-- Moves an average toward a target by the distance between them over `count`, truncated toward
zero; a count of zero forgets the average. -/
def incrementalAverage (average target : Target) (count : UInt64) : Target :=
  if count = 0 then target
  else
    let n := BitVec.ofNat 256 count.toNat
    if average ≤ target then ⟨average.value + (target.value - average.value) / n⟩
    else ⟨average.value - (average.value - target.value) / n⟩

/-- The mean of `count` times an average and one target, as if there were `count + 1` of them,
formed in 512 bits and rounded down. -/
def weightedAverage (average target : Target) (count : UInt64) : Target :=
  let total := average.widen * BitVec.ofNat 512 count.toNat + target.widen
  Target.narrow (total / BitVec.ofNat 512 (min (count.toNat + 1) 0xffffffffffffffff))

/-- Scales an average by `actual / expected`, if both are positive. -/
def scale (average : Target) (actual expected : Int64) : Target :=
  match unsignedCount? actual, unsignedCount? expected with
  | some actual, some expected =>
    if actual ≠ 0 ∧ expected ≠ 0 then (average.mulDiv actual expected).getD average else average
  | _, _ => average

end HeaderRules.Gravity
