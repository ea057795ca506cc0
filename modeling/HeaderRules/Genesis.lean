import HeaderRules.Header
import HeaderRules.Transaction

/-!
# Genesis constants

The first header of a chain is rebuilt from a few constants: the merkle root is either given, or
it is the identifier of a coinbase transaction, which is a tree of one leaf. Constants are texts,
so rebuilding can fail on a text that is not hexadecimal.
-/

namespace HeaderRules

/-- Where the merkle root of a genesis block comes from. -/
inductive GenesisCoinbase where
  /-- The single coinbase transaction: its input script and its key in hexadecimal, and the
  amount it pays. -/
  | transaction (scriptSig key : String) (reward : UInt64)
  /-- The merkle root itself, in display order. -/
  | merkleRoot (text : String)
deriving DecidableEq, Repr

/-- The constants of a genesis block. -/
structure GenesisInfo where
  coinbase : GenesisCoinbase
  version : Int32
  timestamp : UInt32
  bits : CompactTarget
  nonce : UInt32
  /-- The identity hash that the block is known by, in display order. -/
  hash : String
deriving DecidableEq, Repr

namespace GenesisInfo

/-! ## The supported chains -/

/-- The number of smallest units in a coin. -/
def coin : UInt64 := 100000000

def bitcoin : GenesisInfo where
  coinbase := .transaction
    ("04ffff001d0104455468652054696d65732030332f4a616e2f32303039204368616e63656c6c6f72206f6e2062" ++
      "72696e6b206f66207365636f6e64206261696c6f757420666f722062616e6b73")
    ("04678afdb0fe5548271967f1a67130b7105cd6a828e03909a67962e0ea1f61deb649f6bc3f4cef38c4f35504e5" ++
      "1ec112de5c384df7ba0b8d578a4c702b6bf11d5f")
    (50 * coin)
  version := 1
  timestamp := 1231006505
  bits := ⟨0x1d00ffff⟩
  nonce := 2083236893
  hash := "000000000019d6689c085ae165831e934ff763ae46a2a6c172b3f1b60a8ce26f"

/-- The second test network of Bitcoin has the coinbase of the main network. -/
def bitcoinTestnet2 : GenesisInfo where
  coinbase := bitcoin.coinbase
  version := 1
  timestamp := 1296688602
  bits := ⟨0x1d07fff8⟩
  nonce := 384568319
  hash := "00000007199508e34a9ff81e6ec0c477a4cccff2a4767a8eee39c11db367b008"

def litecoin : GenesisInfo where
  coinbase := .merkleRoot "97ddfbbae6be97fd6cdf3e7ca13232a3afff2353e29badfab7f73011edd4ced9"
  version := 1
  timestamp := 1317972665
  bits := ⟨0x1e0ffff0⟩
  nonce := 2084524493
  hash := "12a765e31ffd4059bada1e25190f6e98c99d9714d334efa41a195a7e7e04bfe2"

def litecoinTestnet : GenesisInfo where
  coinbase := litecoin.coinbase
  version := 1
  timestamp := 1317798646
  bits := ⟨0x1e0ffff0⟩
  nonce := 385270584
  hash := "f5ae71e26c74beacc88382716aced69cddf3dffff24f384e1808905e0188f68f"

def dogecoin : GenesisInfo where
  coinbase := .transaction
    "04ffff001d0104084e696e746f6e646f"
    ("040184710fa689ad5023690c80f3a49c8f13f8d45b8c857fbcbc8bc4a8e4d3eb4b10f4d4604fa08dce601aaf0f" ++
      "470216fe1b51850b4acf21b179c45070ac7b03a9")
    (88 * coin)
  version := 1
  timestamp := 1386325540
  bits := ⟨0x1e0ffff0⟩
  nonce := 99943
  hash := "1a91e3dace36e2be3bf030a65679fe821aa1d6ef92e7c9902eb318182c355691"

def darkcoin : GenesisInfo where
  coinbase := .merkleRoot "e0028eb9648db56b1ac77cf090b99048a8007e2bb64b68f092c03c7f56a662c7"
  version := 1
  timestamp := 1390095618
  bits := ⟨0x1e0ffff0⟩
  nonce := 28917698
  hash := "00000ffd590b1485b3caadc19b22e6379c733355108f107a430458cdf3407ab6"

/-! ## Rebuilding the header -/

/-- The coinbase transaction of constants in hexadecimal. The input script is read before the key,
which is always short enough to be pushed. -/
def buildCoinbase (scriptSig key : String) (reward : UInt64) : Except HexError Transaction := do
  let scriptSig ← Hex.decode scriptSig
  let key ← Hex.decode key
  return Transaction.coinbase scriptSig key reward

/-- The coinbase transaction, if the constants describe one. -/
def coinbaseTransaction (info : GenesisInfo) : Except HexError (Option Transaction) :=
  match info.coinbase with
  | .transaction scriptSig key reward => (buildCoinbase scriptSig key reward).map some
  | .merkleRoot _ => .ok none

/-- The merkle root: the given one, or the identifier of the coinbase transaction. -/
def merkleRoot (info : GenesisInfo) : Except HexError Hash256 :=
  match info.coinbase with
  | .merkleRoot text => Hash256.ofDisplayHex text
  | .transaction scriptSig key reward => (buildCoinbase scriptSig key reward).map Transaction.id

/-- The header of the genesis block. -/
def header (info : GenesisInfo) : Except HexError Header := do
  let root ← info.merkleRoot
  return {
    version := info.version
    prevBlockHash := Hash256.zero
    merkleRoot := root
    time := info.timestamp
    bits := info.bits
    nonce := info.nonce }

end GenesisInfo

end HeaderRules
