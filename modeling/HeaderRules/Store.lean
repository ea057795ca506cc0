import HeaderRules.Header
import HeaderRules.Pipeline
import Std.Data.HashMap

/-!
# Stored blocks

The difficulty rules read history through a single question: which block is stored under this
identity? A `History` is a function that answers it, and a `Store` is a finite one that grows block
by block. Ancestors are reached by following the previous-block field; that a block is missing is
no error here, since some rules refuse such a gap and others step over it.
-/

namespace HeaderRules

/-- A header with its identity and its height. The identity is carried along because not every
chain computes it in the same way. -/
structure StoredBlock where
  hash : BlockHash
  header : Header
  height : UInt32
deriving DecidableEq, Repr, Inhabited

namespace StoredBlock

/-- Hashes a header and places it at a height. -/
def ofHeader (header : Header) (height : UInt32) (pipeline : HashPipeline) :
    Except HashError StoredBlock :=
  (pipeline.hash header.bytes).map fun digest => ⟨digest.toBlockHash, header, height⟩

/-- The timestamp. -/
def time (b : StoredBlock) : UInt32 := b.header.time

/-- The declared target as it is written. -/
def bits (b : StoredBlock) : CompactTarget := b.header.bits

/-- The declared target, if it decodes. -/
def target? (b : StoredBlock) : Option Target := Target.ofCompact? b.bits

/-- The identity of the previous block. -/
def prevBlockHash (b : StoredBlock) : BlockHash := b.header.prevBlockHash

end StoredBlock

/-- What is stored under each identity. -/
abbrev History := BlockHash → Option StoredBlock

/-- A finite collection of blocks, each found under its identity. -/
structure Store where
  blocks : Std.HashMap BlockHash StoredBlock

namespace Store

/-- The store without blocks. -/
def empty : Store := ⟨∅⟩

instance : Inhabited Store := ⟨empty⟩

/-- The block stored under an identity. -/
def get? (s : Store) (hash : BlockHash) : Option StoredBlock := s.blocks[hash]?

/-- A store as a history. -/
def history (s : Store) : History := s.get?

/-- Stores a block under its identity, in place of any other block there. -/
def insert (s : Store) (b : StoredBlock) : Store := ⟨s.blocks.insert b.hash b⟩

/-- Removes the block under an identity. -/
def erase (s : Store) (hash : BlockHash) : Store := ⟨s.blocks.erase hash⟩

/-- Stores a block and hands back the one that stood in its place. -/
def put (s : Store) (b : StoredBlock) : Option StoredBlock × Store := (s.get? b.hash, s.insert b)

/-- Removes the block under an identity and hands it back. -/
def take (s : Store) (hash : BlockHash) : Option StoredBlock × Store :=
  (s.get? hash, s.erase hash)

/-- Whether a block is stored under an identity. -/
def contains (s : Store) (hash : BlockHash) : Bool := s.blocks.contains hash

/-- The number of stored blocks. -/
def size (s : Store) : Nat := s.blocks.size

/-- Whether nothing is stored. -/
def isEmpty (s : Store) : Bool := s.blocks.isEmpty

/-- The store of the given blocks; of blocks with the same identity the last one stays. -/
def ofList (bs : List StoredBlock) : Store := ⟨.ofList (bs.map fun b => (b.hash, b))⟩

/-! ## What each operation does to the history -/

@[simp] theorem get?_empty (hash : BlockHash) : empty.get? hash = none := by
  simp [empty, get?]

theorem get?_insert (s : Store) (b : StoredBlock) (hash : BlockHash) :
    (s.insert b).get? hash = if hash = b.hash then some b else s.get? hash := by
  simp only [insert, get?, Std.HashMap.getElem?_insert, beq_iff_eq]
  by_cases h : b.hash = hash
  · simp [h]
  · simp [h, Ne.symm h]

theorem get?_erase (s : Store) (h hash : BlockHash) :
    (s.erase h).get? hash = if hash = h then none else s.get? hash := by
  simp only [erase, get?, Std.HashMap.getElem?_erase, beq_iff_eq]
  by_cases hh : h = hash
  · simp [hh]
  · simp [hh, Ne.symm hh]

theorem contains_eq_isSome (s : Store) (hash : BlockHash) :
    s.contains hash = (s.get? hash).isSome := by
  simp only [contains, get?]
  exact Std.HashMap.contains_eq_isSome_getElem?

end Store

end HeaderRules
