import HeaderRules.Gravity.Average
import HeaderRules.Gravity.Walk

/-!
# Kimoto Gravity Well

The walk averages all targets it reads and compares how long the blocks took with how long they
should have taken. Once enough blocks are read it stops where the ratio of the two leaves the
*event horizon* `1 + 0.7084 · (mass / 28.2) ^ -1.228` or its reciprocal, where the mass is the
number of blocks. The result is the average scaled by the two timespans at the place where the walk
ended.
-/

namespace HeaderRules.Gravity.Kimoto

/-- What is known after some blocks. -/
structure State where
  /-- The number of blocks read. -/
  mass : UInt64
  average : Target
  /-- The seconds between the newest block and the last one read. -/
  actual : Int64
  /-- The seconds that the blocks read should have taken. -/
  expected : Int64
deriving DecidableEq, Repr

/-- Before the first block. -/
def State.initial : State := ⟨0, Target.zero, 0, 0⟩

/-- Blocks above this height count as at least five seconds apart. -/
def elapsedFloorHeight : UInt32 := 646120

/-- The least number of elapsed seconds at a height. -/
def elapsedFloor (height : UInt32) : Int64 := if height > elapsedFloorHeight then 5 else 0

/-- Whether the ratio of expected to actual seconds is outside of the event horizon. -/
def leavesHorizon (mass : UInt64) (actual expected : Int64) : Bool :=
  let ratio := if actual ≠ 0 ∧ expected ≠ 0 then expected.toFloat / actual.toFloat else 1.0
  let horizon := 1.0 + 0.7084 * Float.pow (mass.toFloat / 28.2) (-1.228)
  ratio ≤ 1.0 / horizon || ratio ≥ horizon

/-- Reads one block; `newest` is the time of the block the walk started from. -/
def visit (newest spacing : UInt32) (minimum : UInt64) (s : State) (b : StoredBlock) :
    Except VerificationError (Visit State) :=
  match b.decodedTarget with
  | .error e => .error e
  | .ok target =>
    let mass := s.mass + 1
    let average := if mass = 1 then target else incrementalAverage s.average target mass
    let actual := max (seconds newest - seconds b.time) (elapsedFloor b.height)
    let expected := seconds spacing * signedCount mass
    let s := ⟨mass, average, actual, expected⟩
    .ok (if mass ≥ minimum && leavesHorizon mass actual expected then .stop s else .next s)

/-- The target of the block after `prev`. -/
def target (prev : StoredBlock) (history : History) (spacing : UInt32) (window : WindowBounds)
    (maxTarget : Target) : Except VerificationError Target :=
  if tooShort prev window then .ok maxTarget
  else
    (walk (visit prev.time spacing window.min) history window.limit prev State.initial).map fun s =>
      scale s.average s.actual s.expected

end HeaderRules.Gravity.Kimoto
