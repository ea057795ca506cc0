import HeaderRules.Params

/-!
# Validated parameters

Parameters are used only after a self-check: the hash pipelines can be run, the maximum target
decodes to a positive number, no timing constant is zero, and the genesis block, rebuilt from its
constants, has the identity the chain is known by. `ChainParams` is a set of parameters together
with the decoded maximum target, the genesis block and the proof that the self-check produced
them, so whoever holds one may rely on all of it.
-/

namespace HeaderRules

/-! ## The genesis block -/

/-- Why a genesis block could not be built. -/
inductive GenesisError where
  /-- A constant is not hexadecimal. -/
  | hex (cause : HexError)
  /-- The pipeline of block identities cannot be run. -/
  | pipeline (cause : HashError)
  /-- The rebuilt header has another identity than the chain is known by. -/
  | hashMismatch (chain : Chain) (computed expected : String)
deriving DecidableEq, Repr

/-- A header with the identity it was checked to have. -/
structure GenesisBlock where
  header : Header
  hash : BlockHash
deriving DecidableEq, Repr, Inhabited

/-- Rebuilds the genesis block and checks its identity against the known one. -/
def GenesisBlock.build (p : Params) : Except GenesisError GenesisBlock := do
  let header ← p.genesis.header.mapError .hex
  let digest ← (p.blockHash.hash header.bytes).mapError .pipeline
  if digest.text = p.genesis.hash then
    return ⟨header, digest.toBlockHash⟩
  else
    throw (.hashMismatch p.chain digest.text p.genesis.hash)

/-! ## The self-check -/

/-- Why parameters were refused. -/
inductive ParamsError where
  /-- A hash pipeline cannot be run. -/
  | pipeline (cause : HashError)
  /-- The maximum target is zero, negative or too big. -/
  | invalidMaxTarget (bits : CompactTarget)
  /-- The spacing, the timespan or the interval is zero. -/
  | zeroTiming (chain : Chain)
  /-- The genesis block could not be built. -/
  | genesis (cause : GenesisError)
deriving DecidableEq, Repr

namespace Params

/-- The maximum target, if it decodes to a positive number. -/
def decodedMaxTarget (p : Params) : Except ParamsError Target :=
  match Target.ofCompact? p.maxTarget with
  | some target => if target.isZero then .error (.invalidMaxTarget p.maxTarget) else .ok target
  | none => .error (.invalidMaxTarget p.maxTarget)

/-- Whether one of the timing constants is zero. -/
def hasZeroTiming (p : Params) : Bool :=
  p.targetSpacing == 0 || p.targetTimespan == 0 || p.interval == 0

/-- The self-check, in this order: the pipelines, the maximum target, the timing, the genesis
block. -/
def validate (p : Params) : Except ParamsError (Target × GenesisBlock) := do
  p.powHash.validate.mapError .pipeline
  p.blockHash.validate.mapError .pipeline
  let maxTarget ← p.decodedMaxTarget
  if p.hasZeroTiming then
    throw (.zeroTiming p.chain)
  let genesis ← (GenesisBlock.build p).mapError .genesis
  return (maxTarget, genesis)

end Params

/-- Parameters that passed the self-check, with what it produced. -/
structure ChainParams where
  params : Params
  /-- The easiest target, decoded. -/
  maxTarget : Target
  genesis : GenesisBlock
  validated : params.validate = .ok (maxTarget, genesis)

namespace ChainParams

/-- Runs the self-check. -/
def ofParams (p : Params) : Except ParamsError ChainParams :=
  match h : p.validate with
  | .ok (maxTarget, genesis) => .ok ⟨p, maxTarget, genesis, h⟩
  | .error e => .error e

/-- The validated parameters of a supported chain. -/
def ofChain (c : Chain) : Except ParamsError ChainParams := ofParams c.params

/-- The chain that the parameters are of. -/
def chain (c : ChainParams) : Chain := c.params.chain

/-- The proof-of-work digest of a header. -/
def powHash (c : ChainParams) (header : Header) : Except HashError PowHash :=
  c.params.powHash.hash header.bytes

/-- The identity of a header. -/
def blockHash (c : ChainParams) (header : Header) : Except HashError BlockHash :=
  (c.params.blockHash.hash header.bytes).map PowHash.toBlockHash

end ChainParams

/-! ## Messages -/

namespace GenesisError

/-- What is wrong, in words; a fault of the pipeline speaks for itself. -/
def message : GenesisError → String
  | hex cause => "Invalid hex in genesis constant: " ++ cause.message
  | pipeline cause => cause.message
  | hashMismatch chain computed expected =>
    "Genesis hash mismatch for " ++ chain.name ++ ": computed " ++ computed ++ ", expected " ++
      expected

end GenesisError

namespace ParamsError

/-- What is wrong, in words; causes from below speak for themselves. -/
def message : ParamsError → String
  | pipeline cause => cause.message
  | invalidMaxTarget bits => "Invalid maximum target " ++ bits.text
  | zeroTiming chain => "Zero block timing in parameters for " ++ chain.name
  | genesis cause => cause.message

end ParamsError

end HeaderRules
