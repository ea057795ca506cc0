import HeaderRules.Ancestor

/-!
# The test network rule for long pauses

Between retarget points a test network accepts any difficulty after a pause of more than twice the
target spacing, and after a step back in time. A block that follows more promptly must return to
the last real difficulty: the target of the nearest block, from the previous one backward, that was
not itself mined at the easiest target, or that starts an interval.
-/

namespace HeaderRules.ChainParams

/-- How many links the search for the last real difficulty follows. Heights are 32-bit words, so a
chain whose heights fall by one from link to link has no more blocks than that. -/
def searchLimit : Nat := UInt32.size

/-- Whether a block carries a real difficulty on account of its place: it is the genesis block, or
its height is a multiple of the interval. -/
def startsInterval (c : ChainParams) (interval : UInt32) (b : StoredBlock) : Bool :=
  b.header == c.genesis.header || (interval != 0 && b.height % interval == 0)

/-- The nearest block, from `b` backward, that starts an interval or has another target than the
easiest one. -/
def lastRealBlock (c : ChainParams) (interval : UInt32) (history : History) :
    (limit : Nat) → StoredBlock → Except VerificationError StoredBlock
  | 0, b => .ok b
  | limit + 1, b =>
    if c.startsInterval interval b then .ok b
    else
      match b.decodedTarget with
      | .error e => .error e
      | .ok target =>
        if target ≠ c.maxTarget then .ok b
        else
          match history.parent b with
          | .error e => .error e
          | .ok p => lastRealBlock c interval history limit p

/-- Whether a pause lets the next block have any difficulty. -/
def isLongPause (c : ChainParams) (prev : StoredBlock) (next : Header) : Bool :=
  let pause := satSub64 (seconds next.time) (seconds prev.time)
  let window := satMul64 (seconds c.params.targetSpacing) 2
  pause < 0 || pause > window

/-- Judges a block between retarget points while the rule is in force. -/
def checkMinDifficulty (c : ChainParams) (prev : StoredBlock) (next : Header)
    (history : History) : Except VerificationError Unit :=
  if c.isLongPause prev next then .ok ()
  else do
    let real ← c.lastRealBlock (c.params.intervalAt prev.height) history searchLimit prev
    match Target.ofCompact? next.bits with
    | none => throw (.badTarget next.bits)
    | some declared =>
      let expected ← real.decodedTarget
      if expected ≠ declared then
        throw (.testnetTransition (nextHeight prev.height) real.bits next.bits)

end HeaderRules.ChainParams
