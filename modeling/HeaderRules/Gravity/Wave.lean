import HeaderRules.Gravity.Average
import HeaderRules.Gravity.Walk

/-!
# Dark Gravity Wave

The first version reads the whole window. Targets are averaged over its newest part only. The time
that a block takes is estimated by a blend: seven tenths of an incremental average over the newest
intervals and three tenths of the plain average over all of them. The timespan that follows is kept
between a third and three times the expected one.
-/

namespace HeaderRules.Gravity.Wave

/-- The greater of two doubles, where a number wins over an undefined value. -/
def maxNumber (a b : Float) : Float :=
  if a.isNaN then b else if b.isNaN then a else if a < b then b else a

/-- The smaller of two doubles, where a number wins over an undefined value. -/
def minNumber (a b : Float) : Float :=
  if a.isNaN then b else if b.isNaN then a else if b < a then b else a

/-- What is known about the intervals between the blocks read. -/
structure Intervals where
  /-- The incremental average of the newest intervals. -/
  average : Int64
  /-- How many intervals are in that average. -/
  averaged : Int64
  /-- The sum of all intervals. -/
  total : Int64
  /-- How many intervals are in that sum. -/
  summed : Int64
deriving DecidableEq, Repr

/-- No interval yet. -/
def Intervals.none : Intervals := ⟨0, 0, 0, 0⟩

/-- Takes in one interval; the average stops growing once it holds more than `newest` of them. -/
def Intervals.add (i : Intervals) (newest interval : Int64) : Intervals :=
  let i :=
    if i.averaged ≤ newest then
      let n := i.averaged + 1
      let average := if n = 1 then interval else (interval - i.average) / n + i.average
      { i with average := average, averaged := n }
    else i
  { i with total := i.total + interval, summed := i.summed + 1 }

/-- What is known after some blocks. -/
structure State where
  /-- The number of blocks read. -/
  count : UInt64
  average : Target
  intervals : Intervals
  /-- The time of the last block read. -/
  lastTime : Int64
deriving DecidableEq, Repr

/-- Before the first block. -/
def State.initial : State := ⟨0, Target.zero, .none, 0⟩

/-- Reads one block. An interval counts only where the block before it has a positive time. -/
def visit (minimum : UInt64) (s : State) (b : StoredBlock) :
    Except VerificationError (Visit State) := do
  let count := s.count + 1
  let average ←
    if count ≤ minimum then do
      let target ← b.decodedTarget
      pure (if count = 1 then target else incrementalAverage s.average target count)
    else pure s.average
  let time := seconds b.time
  let intervals :=
    if s.lastTime > 0 then s.intervals.add (signedCount minimum) (s.lastTime - time)
    else s.intervals
  return .next ⟨count, average, intervals, time⟩

/-- The actual and the expected timespan of the blocks read, from the blended block time. -/
def timespans (s : State) (spacing : UInt32) : Int64 × Int64 :=
  let spacing := spacing.toFloat
  let plain := s.intervals.total.toFloat / s.intervals.summed.toFloat
  let blended := maxNumber (s.intervals.average.toFloat * 0.7 + plain * 0.3) 1.0
  let shift := spacing / blended
  let count := s.count.toFloat
  let expected := count * spacing
  let actual :=
    minNumber (maxNumber (count * spacing / shift) (expected / 3.0)) (expected * 3.0)
  (actual.toInt64, expected.toInt64)

/-- The target of the block after `prev`. Without any interval it is the plain average. -/
def target (prev : StoredBlock) (history : History) (spacing : UInt32) (window : WindowBounds)
    (maxTarget : Target) : Except VerificationError Target :=
  if tooShort prev window then .ok maxTarget
  else
    (walk (visit window.min) history window.limit prev State.initial).map fun s =>
      if s.intervals.averaged = 0 ∨ s.intervals.summed = 0 then s.average
      else
        let (actual, expected) := timespans s spacing
        scale s.average actual expected

end HeaderRules.Gravity.Wave
