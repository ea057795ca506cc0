import HeaderRules.Chain
import HeaderRules.Genesis
import HeaderRules.Pipeline
import HeaderRules.Timespan

/-!
# Consensus parameters

`Params` holds every constant that sets one chain apart from another: its hash pipelines, its block
timing, its easiest target, how it retargets and how its genesis block is made. The second half of
the module answers, for a height, the questions that the difficulty rules ask of these constants.
Heights in those questions are mostly the height of the *previous* block, so that the block under
judgement has the next height.
-/

namespace HeaderRules

/-! ## Retarget strategies -/

/-- How many blocks a backward walk needs and how many it may visit; a maximum of zero sets no
bound. -/
structure WindowBounds where
  min : UInt64
  max : UInt64
deriving DecidableEq, Repr

/-- The algorithms that a gravity-well chain goes through. -/
inductive GravityPhase where
  /-- The ratio retarget at interval boundaries. -/
  | ratio
  | kimotoGravityWell
  | darkGravityWave
  | darkGravityWave3
deriving DecidableEq, Repr

/-- The heights at which a gravity-well chain changes its algorithm; all of them are heights of the
block under judgement. -/
structure GravitySchedule where
  /-- The first height of the Kimoto Gravity Well. -/
  kgwHeight : UInt32
  /-- The first height of the Dark Gravity Wave. -/
  dgwHeight : UInt32
  /-- The first height of the third version of the Dark Gravity Wave. -/
  dgw3Height : UInt32
  /-- Heights below this one accept a relative error of the difficulty. -/
  toleranceUntil : UInt32
  tolerance : Float
  kgwWindow : WindowBounds
  dgwWindow : WindowBounds
  dgw3Window : WindowBounds
deriving Repr

namespace GravitySchedule

/-- The algorithm in force at a height. -/
def phase (schedule : GravitySchedule) (height : UInt32) : GravityPhase :=
  if height < schedule.kgwHeight then .ratio
  else if height < schedule.dgwHeight then .kimotoGravityWell
  else if height < schedule.dgw3Height then .darkGravityWave
  else .darkGravityWave3

/-- The schedule of Darkcoin. The window of the Kimoto Gravity Well spans from a fortieth of a day
to a week of blocks. -/
def darkcoin : GravitySchedule where
  kgwHeight := 15200
  dgwHeight := 34140
  dgw3Height := 68589
  toleranceUntil := 68590
  tolerance := 0.2
  kgwWindow := ⟨14, 4032⟩
  dgwWindow := ⟨14, 140⟩
  dgw3Window := ⟨24, 24⟩

end GravitySchedule

/-- How a chain derives the next target. -/
inductive RetargetStrategy where
  /-- A ratio retarget at every interval, with the classic limits. -/
  | fixed
  /-- A ratio retarget whose interval changes at a height, with limits that depend on the
  height. -/
  | varying (fastHeight fastInterval : UInt32) (bands : List TimespanBand)
  /-- The gravity-well algorithms, one after the other. -/
  | gravityWell (schedule : GravitySchedule)
deriving Repr

/-- The rule of test networks that lets a block after a long pause have any difficulty. -/
structure MinDifficultyRule where
  /-- The rule is in force for blocks with a later timestamp. -/
  afterTime : UInt32
deriving DecidableEq, Repr

/-! ## The parameters of a chain -/

/-- The constants of a chain. -/
structure Params where
  chain : Chain
  /-- The identifier of the chain. -/
  id : String
  /-- The function whose digest must not exceed the target. -/
  powHash : HashPipeline
  /-- The function whose digest is the identity of a block. -/
  blockHash : HashPipeline
  /-- How many seconds a block should take. -/
  targetSpacing : UInt32
  /-- How many seconds an interval should take. -/
  targetTimespan : UInt32
  /-- The number of blocks in an interval. -/
  interval : UInt32
  /-- How many blocks further back an interval after the first one is measured from. -/
  intervalOffset : UInt32
  /-- The easiest target. -/
  maxTarget : CompactTarget
  retarget : RetargetStrategy
  minDifficulty : Option MinDifficultyRule
  genesis : GenesisInfo
deriving Repr

namespace Params

def bitcoin : Params where
  chain := .bitcoin
  id := Chain.bitcoin.id
  powHash := .sha256d
  blockHash := .sha256d
  targetSpacing := 600
  targetTimespan := 1209600
  interval := 2016
  intervalOffset := 0
  maxTarget := ⟨0x1d00ffff⟩
  retarget := .fixed
  minDifficulty := none
  genesis := .bitcoin

/-- The second test network of Bitcoin has an easier maximum, and from 2012-02-15 on the rule for
long pauses. -/
def bitcoinTestnet2 : Params :=
  { bitcoin with
    chain := .bitcoinTestnet2
    id := Chain.bitcoinTestnet2.id
    maxTarget := ⟨0x1d0fffff⟩
    minDifficulty := some ⟨1329264000⟩
    genesis := .bitcoinTestnet2 }

def litecoin : Params where
  chain := .litecoin
  id := Chain.litecoin.id
  powHash := .scrypt .litecoin
  blockHash := .sha256d
  targetSpacing := 150
  targetTimespan := 302400
  interval := 2016
  intervalOffset := 1
  maxTarget := ⟨0x1e0fffff⟩
  retarget := .fixed
  minDifficulty := none
  genesis := .litecoin

def litecoinTestnet : Params :=
  { litecoin with
    chain := .litecoinTestnet
    id := Chain.litecoinTestnet.id
    minDifficulty := some ⟨0⟩
    genesis := .litecoinTestnet }

def dogecoin : Params where
  chain := .dogecoin
  id := Chain.dogecoin.id
  powHash := .scrypt .litecoin
  blockHash := .sha256d
  targetSpacing := 60
  targetTimespan := 14400
  interval := 240
  intervalOffset := 1
  maxTarget := ⟨0x1e0fffff⟩
  retarget := .varying 145000 1 dogecoinBands
  minDifficulty := none
  genesis := .dogecoin

def darkcoin : Params where
  chain := .darkcoin
  id := Chain.darkcoin.id
  powHash := .x11
  blockHash := .x11
  targetSpacing := 150
  targetTimespan := 86400
  interval := 576
  intervalOffset := 1
  maxTarget := ⟨0x1e0fffff⟩
  retarget := .gravityWell .darkcoin
  minDifficulty := none
  genesis := .darkcoin

end Params

/-- The parameters of a supported chain. -/
def Chain.params : Chain → Params
  | .bitcoin => .bitcoin
  | .bitcoinTestnet2 => .bitcoinTestnet2
  | .litecoin => .litecoin
  | .litecoinTestnet => .litecoinTestnet
  | .dogecoin => .dogecoin
  | .darkcoin => .darkcoin

/-! ## Questions about a height -/

/-- The height of the block after one of the given height; the greatest height has no successor
and stays. -/
def nextHeight (height : UInt32) : UInt32 := satAdd height 1

namespace Params

/-- The number of blocks in the interval that follows a height. -/
def intervalAt (p : Params) (prevHeight : UInt32) : UInt32 :=
  match p.retarget with
  | .varying fastHeight fastInterval _ =>
    if prevHeight ≥ fastHeight then fastInterval else p.interval
  | _ => p.interval

/-- How many seconds the interval that follows a height should take. -/
def targetTimespanAt (p : Params) (prevHeight : UInt32) : UInt32 :=
  match p.retarget with
  | .varying .. => satMul (p.intervalAt prevHeight) p.targetSpacing
  | _ => p.targetTimespan

/-- How many blocks before the previous one the measured interval starts. The first interval has no
block before its start, so the offset counts only after it. -/
def retargetBlockspan (p : Params) (prevHeight : UInt32) : UInt32 :=
  let interval := p.intervalAt prevHeight
  let offset := if nextHeight prevHeight ≤ interval then 0 else p.intervalOffset
  satAdd (satSub interval 1) offset

/-- Whether the gravity-well algorithms retarget every block at a height. -/
def everyBlock (p : Params) (height : UInt32) : Bool :=
  match p.retarget with
  | .gravityWell schedule => height ≥ schedule.kgwHeight
  | _ => false

/-- Whether the block after one of the given height is a retarget point. -/
def shouldRetarget (p : Params) (prevHeight : UInt32) : Bool :=
  let height := nextHeight prevHeight
  let interval := p.intervalAt prevHeight
  p.everyBlock height || (interval != 0 && height % interval == 0)

/-- The limits for the timespan of a retarget after the given height: those of the first band that
has started, or the classic ones. -/
def timespanClamp (p : Params) (prevHeight : UInt32) : TimespanClamp :=
  match p.retarget with
  | .varying _ _ bands =>
    match bands.find? fun band => prevHeight ≥ band.fromHeight with
    | some band => band.clamp
    | none => .classic
  | _ => .classic

/-- The relative error of the difficulty that a height accepts, if any. -/
def toleranceAt (p : Params) (height : UInt32) : Option Float :=
  match p.retarget with
  | .gravityWell schedule =>
    if height < schedule.toleranceUntil then some schedule.tolerance else none
  | _ => none

end Params

end HeaderRules
