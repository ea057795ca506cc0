import HeaderRules.Retarget.Difficulty

/-!
# Runs of headers

Consecutive headers in hexadecimal are verified one after the other. The first one is trusted and
placed at a given height; every later one must decode, connect to the one before it, and pass the
checks of its work and of its difficulty, in this order. Verified headers are stored, and the
difficulty of a header is judged with the store of all headers before it. The first failure ends
the run, so what follows it is never looked at.
-/

namespace HeaderRules

/-- Why a run of headers fails. -/
inductive RunError where
  /-- There is no header. -/
  | empty
  /-- A text is not a header. -/
  | header (cause : HeaderHexError)
  /-- A header does not name the one before it. -/
  | doesNotConnect (height : UInt32)
  /-- A header fails verification. -/
  | verification (cause : VerificationError)
  /-- The pipeline of block identities cannot be run. -/
  | pipeline (cause : HashError)
deriving DecidableEq, Repr

namespace RunError

/-- What is wrong, in words. -/
def message : RunError → String
  | empty => "no headers to verify"
  | header cause => cause.message
  | doesNotConnect height => "header at height " ++ toString height ++ " does not connect"
  | verification cause => cause.message
  | pipeline cause => cause.message

end RunError

/-- What a run has verified so far: all headers in a store, and the last one. -/
structure HeaderRun where
  store : Store
  tip : StoredBlock

namespace HeaderRun

/-- Stores a header after the last one, at the given height. -/
def place (c : ChainParams) (store : Store) (header : Header) (height : UInt32) :
    Except RunError HeaderRun := do
  let hash ← (c.blockHash header).mapError .pipeline
  let block : StoredBlock := ⟨hash, header, height⟩
  return ⟨store.insert block, block⟩

/-- The run of the first header, which is not checked against anything. -/
def start (c : ChainParams) (startHeight : UInt32) (text : String) : Except RunError HeaderRun := do
  let header ← (Header.ofHex text).mapError .header
  place c Store.empty header startHeight

/-- Verifies the next header of a run. -/
def step (c : ChainParams) (run : HeaderRun) (text : String) : Except RunError HeaderRun := do
  let header ← (Header.ofHex text).mapError .header
  let height := nextHeight run.tip.height
  if header.prevBlockHash ≠ run.tip.hash then
    throw (.doesNotConnect height)
  let _ ← (c.verifyProofOfWork header).mapError .verification
  (c.checkDifficulty run.tip header run.store.history).mapError .verification
  place c run.store header height

/-- Verifies a whole run of headers. -/
def verify (c : ChainParams) (startHeight : UInt32) : List String → Except RunError HeaderRun
  | [] => .error .empty
  | first :: rest => do
    let run ← start c startHeight first
    rest.foldlM (step c) run

end HeaderRun

end HeaderRules
