import HeaderRules.ChainParams

/-!
# Proof of work

Why a header can be refused, and the first half of its verification: the target it declares must be
usable on its chain and its digest must not exceed that target. A digest that is too high is told
apart from a target that is not usable, and both from a pipeline that cannot be run, which validated
parameters rule out.
-/

namespace HeaderRules

/-- Why a header fails verification. -/
inductive VerificationError where
  /-- The digest is above the declared target. -/
  | proofOfWork (hash : PowHash) (target : Target)
  /-- The declared target is zero, negative, too big or easier than the chain allows. -/
  | badTarget (bits : CompactTarget)
  /-- The difficulty changed where it must not. -/
  | unexpectedDifficultyChange (height : UInt32) (declared expected : CompactTarget)
  /-- A retarget computed something else than the header declares. -/
  | difficultyMismatch (height : UInt32) (computed declared : CompactTarget)
  /-- After a short pause a test network block left the last real difficulty. -/
  | testnetTransition (height : UInt32) (expected declared : CompactTarget)
  /-- A walk through contiguous history found a gap. -/
  | missingAncestor (hash : BlockHash) (height : UInt32)
  /-- A stored block declares a target that does not decode. -/
  | invalidStoredTarget (bits : CompactTarget) (height : UInt32)
  /-- A hash pipeline cannot be run. -/
  | pipeline (cause : HashError)
deriving DecidableEq, Repr

namespace VerificationError

/-- What is wrong, in words. -/
def message : VerificationError → String
  | proofOfWork hash target => "Hash is higher than target: " ++ hash.text ++ " vs " ++ target.text
  | badTarget bits => "Difficulty target is bad: " ++ bits.text
  | unexpectedDifficultyChange height declared expected =>
    "Unexpected change in difficulty at height " ++ toString height ++ ": " ++ declared.text ++
      " vs " ++ expected.text
  | difficultyMismatch height computed declared =>
    "Network provided difficulty bits do not match what was calculated at height " ++
      toString height ++ ": " ++ computed.text ++ " vs " ++ declared.text
  | testnetTransition height expected declared =>
    "Testnet block transition that is not allowed at height " ++ toString height ++ ": " ++
      expected.text ++ " vs " ++ declared.text
  | missingAncestor hash height =>
    "Difficulty transition point but we did not find a way back to the genesis block: " ++
      hash.text ++ " missing at height " ++ toString height
  | invalidStoredTarget bits height =>
    "Stored block at height " ++ toString height ++ " has an undecodable target " ++ bits.text
  | pipeline cause => cause.message

end VerificationError

namespace ChainParams

/-- The target that a code declares, if it is positive and not easier than the chain allows. -/
def declaredTarget (c : ChainParams) (bits : CompactTarget) : Except VerificationError Target :=
  match Target.ofCompact? bits with
  | some target =>
    if !target.isZero && target ≤ c.maxTarget then .ok target else .error (.badTarget bits)
  | none => .error (.badTarget bits)

/-- The digest of a header, if it does not exceed the target that the header declares. -/
def verifyProofOfWork (c : ChainParams) (header : Header) : Except VerificationError PowHash := do
  let target ← c.declaredTarget header.bits
  let hash ← (c.powHash header).mapError .pipeline
  if hash.toTarget > target then
    throw (.proofOfWork hash target)
  return hash

/-- Whether the digest of a header meets its target; a target or a pipeline that is not usable is
still an error. -/
def hasValidProofOfWork (c : ChainParams) (header : Header) : Except VerificationError Bool :=
  match c.verifyProofOfWork header with
  | .ok _ => .ok true
  | .error (.proofOfWork ..) => .ok false
  | .error e => .error e

end ChainParams

end HeaderRules
