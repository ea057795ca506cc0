import HeaderRules.Decimal.Shortest
import HeaderRules.Form.Block
import HeaderRules.Form.Pipeline

/-!
# JSON forms of parameters

The constants of a chain as they are published. These forms are only written, never read.
-/

namespace HeaderRules

/-- The form of timespan limits. -/
def TimespanClamp.toJson : TimespanClamp → Json
  | ratio minDivisor maxMultiplier =>
    .obj [("ratio", .obj [("min_divisor", .ofInt64 minDivisor),
      ("max_multiplier", .ofInt64 maxMultiplier)])]
  | dampened dampening => .obj [("dampened", .obj [("dampening", .ofInt64 dampening)])]

/-- The form of the limits from a height on. -/
def TimespanBand.toJson (b : TimespanBand) : Json :=
  .obj [("from_height", .ofUInt32 b.fromHeight), ("clamp", b.clamp.toJson)]

/-- The form of the bounds of a window. -/
def WindowBounds.toJson (w : WindowBounds) : Json :=
  .obj [("min", .ofUInt64 w.min), ("max", .ofUInt64 w.max)]

/-- The form of a gravity schedule. -/
def GravitySchedule.toJson (s : GravitySchedule) : Json :=
  .obj [("kgw_height", .ofUInt32 s.kgwHeight), ("dgw_height", .ofUInt32 s.dgwHeight),
    ("dgw3_height", .ofUInt32 s.dgw3Height), ("tolerance_until", .ofUInt32 s.toleranceUntil),
    ("tolerance", .real (Decimal.ofFloat s.tolerance)), ("kgw_window", s.kgwWindow.toJson),
    ("dgw_window", s.dgwWindow.toJson), ("dgw3_window", s.dgw3Window.toJson)]

/-- The form of a retarget strategy. -/
def RetargetStrategy.toJson : RetargetStrategy → Json
  | fixed => .str "fixed"
  | varying fastHeight fastInterval bands =>
    .obj [("variable", .obj [("fast_height", .ofUInt32 fastHeight),
      ("fast_interval", .ofUInt32 fastInterval), ("bands", .arr (bands.map TimespanBand.toJson))])]
  | gravityWell schedule => .obj [("gravity_well", schedule.toJson)]

/-- The form of the test network rule. -/
def MinDifficultyRule.toJson (rule : MinDifficultyRule) : Json :=
  .obj [("after_time", .ofUInt32 rule.afterTime)]

/-- The form of the origin of a merkle root. -/
def GenesisCoinbase.toJson : GenesisCoinbase → Json
  | transaction scriptSig key reward =>
    .obj [("transaction", .obj [("script_sig", .str scriptSig), ("pubkey", .str key),
      ("reward", .ofUInt64 reward)])]
  | merkleRoot text => .obj [("merkle_root", .str text)]

/-- The form of the constants of a genesis block. -/
def GenesisInfo.toJson (info : GenesisInfo) : Json :=
  .obj [("coinbase", info.coinbase.toJson), ("version", .int info.version.toInt),
    ("timestamp", .ofUInt32 info.timestamp), ("bits", info.bits.toJson),
    ("nonce", .ofUInt32 info.nonce), ("hash", .str info.hash)]

/-- The form of the constants of a chain. -/
def Params.toJson (p : Params) : Json :=
  .obj [("chain", p.chain.toJson), ("id", .str p.id), ("pow_hash", p.powHash.toJson),
    ("block_hash", p.blockHash.toJson), ("target_spacing", .ofUInt32 p.targetSpacing),
    ("target_timespan", .ofUInt32 p.targetTimespan), ("interval", .ofUInt32 p.interval),
    ("interval_offset", .ofUInt32 p.intervalOffset), ("max_target", p.maxTarget.toJson),
    ("retarget", p.retarget.toJson),
    ("min_difficulty", (p.minDifficulty.map MinDifficultyRule.toJson).getD .null),
    ("genesis", p.genesis.toJson)]

/-- The form of validated parameters. -/
def ChainParams.toJson (c : ChainParams) : Json :=
  .obj [("params", c.params.toJson), ("max_target", c.maxTarget.toJson),
    ("genesis", c.genesis.toJson)]

end HeaderRules
