import HeaderRules.Ancestor

/-!
# The ratio retarget

At the end of an interval the next target is the previous one times the ratio of the measured to
the target timespan. The measured timespan runs from the block where the interval starts to the
previous block and is limited before it is used; every block on the way must be stored.
-/

namespace HeaderRules.ChainParams

/-- The measured and limited timespan of the interval that ends at `prev`. -/
def timespan (c : ChainParams) (prev : StoredBlock) (history : History) :
    Except VerificationError Int64 := do
  let start ← history.ancestor (c.params.retargetBlockspan prev.height).toNat prev
  let measured := satSub64 (seconds prev.time) (seconds start.time)
  return (c.params.timespanClamp prev.height).apply measured
    (seconds (c.params.targetTimespanAt prev.height))

/-- The target of `prev` times the ratio of the two timespans. -/
def ratioTarget (c : ChainParams) (prev : StoredBlock) (history : History) :
    Except VerificationError Target := do
  let timespan ← c.timespan prev history
  let old ← prev.decodedTarget
  let targetTimespan := (c.params.targetTimespanAt prev.height).toUInt64
  return (old.mulDiv ((unsignedCount? timespan).getD 0) targetTimespan).getD old

end HeaderRules.ChainParams
