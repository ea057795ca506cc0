import HeaderRules.Gravity.Kimoto
import HeaderRules.Gravity.Wave
import HeaderRules.Gravity.Wave3
import HeaderRules.Retarget.MinDifficulty
import HeaderRules.Retarget.Ratio

/-!
# The difficulty rules

Which target a block must declare, and whether a header declares it. Between retarget points a
block repeats the code of the previous one, unless the test network rule applies. At a retarget
point the required target is computed, limited to the easiest target of the chain, reduced to the
digits that the declared code can carry, and compared with it: exactly, or within the tolerance
that early heights of a gravity-well chain have.
-/

namespace HeaderRules.ChainParams

/-- The target that the strategy of the chain computes for the block after `prev`. -/
def computedTarget (c : ChainParams) (prev : StoredBlock) (history : History) :
    Except VerificationError Target :=
  match c.params.retarget with
  | .fixed => c.ratioTarget prev history
  | .varying .. => c.ratioTarget prev history
  | .gravityWell schedule =>
    let spacing := c.params.targetSpacing
    match schedule.phase (nextHeight prev.height) with
    | .ratio => c.ratioTarget prev history
    | .kimotoGravityWell =>
      Gravity.Kimoto.target prev history spacing schedule.kgwWindow c.maxTarget
    | .darkGravityWave => Gravity.Wave.target prev history spacing schedule.dgwWindow c.maxTarget
    | .darkGravityWave3 =>
      Gravity.Wave3.target prev history spacing schedule.dgw3Window c.maxTarget

/-- The target that the block after `prev` must have, before it is reduced to the precision of a
code. -/
def requiredTarget (c : ChainParams) (prev : StoredBlock) (history : History) :
    Except VerificationError Target :=
  (c.computedTarget prev history).map fun target =>
    if target > c.maxTarget then c.maxTarget else target

/-- Whether the declared difficulty is off the expected one by more than a fraction of it. -/
def exceedsTolerance (expected declared : CompactTarget) (tolerance : Float) : Bool :=
  (expected.difficulty - declared.difficulty).abs > expected.difficulty * tolerance

/-- Compares a computed target with a declared code at the precision of the code. -/
def compareDeclared (c : ChainParams) (height : UInt32) (computed : Target)
    (declared : CompactTarget) : Except VerificationError Unit :=
  let computed := (computed.maskToPrecisionOf declared).toCompact
  let differs :=
    match c.params.toleranceAt height with
    | some tolerance => exceedsTolerance computed declared tolerance
    | none => computed != declared
  if differs then .error (.difficultyMismatch height computed declared) else .ok ()

/-- The test network rule, if it is in force for a header. -/
def activeMinDifficulty (c : ChainParams) (next : Header) : Bool :=
  match c.params.minDifficulty with
  | some rule => next.time > rule.afterTime
  | none => false

/-- Judges the difficulty that `next` declares on top of `prev`. -/
def checkDifficulty (c : ChainParams) (prev : StoredBlock) (next : Header) (history : History) :
    Except VerificationError Unit :=
  let height := nextHeight prev.height
  if c.params.shouldRetarget prev.height then do
    let computed ← c.requiredTarget prev history
    c.compareDeclared height computed next.bits
  else if c.activeMinDifficulty next then c.checkMinDifficulty prev next history
  else if next.bits ≠ prev.bits then
    .error (.unexpectedDifficultyChange height next.bits prev.bits)
  else .ok ()

end HeaderRules.ChainParams
