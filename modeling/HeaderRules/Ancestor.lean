import HeaderRules.Store
import HeaderRules.Verification

/-!
# Ancestors

Steps back through contiguous history. A rule that needs every block on its way treats a missing
one as an error, which names the missing block and the height at which it should have been.
-/

namespace HeaderRules

/-- The decoded target of a stored block. -/
def StoredBlock.decodedTarget (b : StoredBlock) : Except VerificationError Target :=
  match b.target? with
  | some target => .ok target
  | none => .error (.invalidStoredTarget b.bits b.height)

namespace History

/-- The stored parent of a block. -/
def parent (history : History) (b : StoredBlock) : Except VerificationError StoredBlock :=
  match history b.prevBlockHash with
  | some p => .ok p
  | none => .error (.missingAncestor b.prevBlockHash (satSub b.height 1))

/-- The block that `hops` links lead back to. -/
def ancestor (history : History) : Nat → StoredBlock → Except VerificationError StoredBlock
  | 0, b => .ok b
  | hops + 1, b =>
    match history.parent b with
    | .ok p => ancestor history hops p
    | .error e => .error e

end History

end HeaderRules
