import HeaderRules.Retarget.Difficulty

/-!
# Scenarios

A scenario is a history made by hand, to try the difficulty rules on: a store of blocks and a block
at its tip, on which further ones are placed. Blocks of a scenario have no work. Unless they are
given another one, their identity is a stand-in that is made from their height, so that a block can
be named without hashing anything. The tip is a value of its own, which stays when the store loses
or replaces the block.
-/

namespace HeaderRules

/-- A store and the block at the tip of the history. -/
structure Scenario where
  store : Store
  tip : Option StoredBlock
deriving Inhabited

namespace Scenario

/-- The scenario without blocks. -/
def empty : Scenario := ⟨Store.empty, none⟩

/-- The stand-in for the identity of the block at a height: the height in four bytes and the byte
0xab at the other end. -/
def standIn (height : UInt32) : BlockHash where
  internal := ⟨littleEndian 4 height.toNat ++ List.replicate 27 0 ++ [0xab], by simp⟩

/-- A header of version 1 without transactions. -/
def plainHeader (prev : BlockHash) (time : UInt32) (bits : CompactTarget) (nonce : UInt32) :
    Header where
  version := 1
  prevBlockHash := prev
  merkleRoot := Hash256.zero
  time := time
  bits := bits
  nonce := nonce

/-- A 32-bit word moved by a signed amount, modulo 2³². -/
def shifted (n : UInt32) (amount : Int64) : UInt32 :=
  UInt32.ofNat ((n.toNat + amount.toInt) % UInt32.size).toNat

/-- A header on top of a block. -/
def candidate (tip : StoredBlock) (time : UInt32) (bits : CompactTarget) : Header :=
  plainHeader tip.hash time bits 0

/-- The block that a header makes on top of a block. -/
def successor (tip : StoredBlock) (header : Header) : StoredBlock :=
  let height := tip.height + 1
  ⟨standIn height, header, height⟩

/-- Stores a block and makes it the tip. -/
def place (s : Scenario) (b : StoredBlock) : Scenario := ⟨s.store.insert b, some b⟩

/-- Starts a history at a height; the block before it is not stored. -/
def start (s : Scenario) (height time : UInt32) (bits : CompactTarget) : Scenario :=
  let prev := if height = 0 then Hash256.zero else standIn (height - 1)
  s.place ⟨standIn height, plainHeader prev time bits 0, height⟩

/-- The item at a position of a list that repeats itself; nothing if the list is empty. -/
def cyclic? {α : Type} (xs : Array α) (i : Nat) : Option α := xs[i % xs.size]?

/-- Places blocks on the tip, with gaps between their times and targets that repeat. -/
def extend (s : Scenario) (tip : StoredBlock) (gaps : Array Int64) (bits : Array CompactTarget)
    (count : Nat) : Scenario :=
  let step (acc : Scenario × StoredBlock) (i : Nat) : Scenario × StoredBlock :=
    match cyclic? gaps i, cyclic? bits i with
    | some gap, some bits =>
      let b := successor acc.2 (candidate acc.2 (shifted acc.2.time gap) bits)
      (acc.1.place b, b)
    | _, _ => acc
  ((List.range count).foldl step (s, tip)).1

/-- What became of growing a history: the scenario, the targets that were declared, and the error
that put an end to it, if there was one. -/
structure Growth where
  scenario : Scenario
  declared : List CompactTarget
  failure : Option VerificationError

/-- The code that the next block should declare: the required one at a retarget point, and that of
the tip elsewhere. -/
def nextBits (c : ChainParams) (tip : StoredBlock) (history : History) :
    Except VerificationError CompactTarget :=
  if c.params.shouldRetarget tip.height then
    (c.requiredTarget tip history).map Target.toCompact
  else .ok tip.bits

/-- The header of the next block, if the difficulty rules accept it. -/
def nextHeader (c : ChainParams) (tip : StoredBlock) (time : UInt32) (history : History) :
    Except VerificationError Header := do
  let header := candidate tip time (← nextBits c tip history)
  c.checkDifficulty tip header history
  return header

/-- Places `count` blocks on the tip that declare what the rules ask for, up to the first error;
`i` is the position in the list of gaps. -/
def grow (c : ChainParams) (gaps : Array Int64) :
    (count : Nat) → (i : Nat) → Scenario → StoredBlock → Growth
  | 0, _, s, _ => ⟨s, [], none⟩
  | count + 1, i, s, tip =>
    let time := shifted tip.time ((cyclic? gaps i).getD 0)
    match nextHeader c tip time s.store.history with
    | .error e => ⟨s, [], some e⟩
    | .ok header =>
      let b := successor tip header
      let growth := grow c gaps count (i + 1) (s.place b) b
      { growth with declared := header.bits :: growth.declared }

/-- Keeps only those blocks that are stored under the stand-ins of the given heights. -/
def retain (s : Scenario) (heights : List UInt32) : Scenario :=
  { s with store := Store.ofList (heights.filterMap fun height => s.store.get? (standIn height)) }

/-- Makes a stored block the tip. -/
def select (s : Scenario) (hash : BlockHash) : Scenario :=
  match s.store.get? hash with
  | some b => { s with tip := some b }
  | none => s

end Scenario

end HeaderRules
