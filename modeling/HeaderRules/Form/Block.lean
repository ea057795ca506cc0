import HeaderRules.ChainParams
import HeaderRules.Form.Target
import HeaderRules.Store

/-!
# JSON forms of headers and blocks

Headers and blocks are records of their fields.
-/

namespace HeaderRules

namespace Header

/-- The form of a header. -/
def toJson (h : Header) : Json :=
  .obj [("version", .int h.version.toInt), ("prev_blockhash", h.prevBlockHash.toJson),
    ("merkle_root", h.merkleRoot.toJson), ("time", .ofUInt32 h.time), ("bits", h.bits.toJson),
    ("nonce", .ofUInt32 h.nonce)]

/-- The names of the fields in order. -/
def fieldNames : List String :=
  ["version", "prev_blockhash", "merkle_root", "time", "bits", "nonce"]

/-- The header of a form. -/
def ofJson? (j : Json) : Option Header := do
  let [version, prev, root, time, bits, nonce] ← j.fields? fieldNames | none
  return {
    version := ← version.int32?
    prevBlockHash := ← Hash256.ofJson? prev
    merkleRoot := ← Hash256.ofJson? root
    time := ← time.uint32?
    bits := ← CompactTarget.ofJson? bits
    nonce := ← nonce.uint32? }

end Header

namespace StoredBlock

/-- The form of a stored block. -/
def toJson (b : StoredBlock) : Json :=
  .obj [("hash", b.hash.toJson), ("header", b.header.toJson), ("height", .ofUInt32 b.height)]

/-- The stored block of a form. -/
def ofJson? (j : Json) : Option StoredBlock := do
  let [hash, header, height] ← j.fields? ["hash", "header", "height"] | none
  return ⟨← Hash256.ofJson? hash, ← Header.ofJson? header, ← height.uint32?⟩

end StoredBlock

/-- The form of a genesis block. -/
def GenesisBlock.toJson (b : GenesisBlock) : Json :=
  .obj [("header", b.header.toJson), ("hash", b.hash.toJson)]

end HeaderRules
