import HeaderRules.Ancestor

/-!
# Backward walks over history with gaps

A gravity-well algorithm reads blocks from the newest one backward, over a bounded window. Local
history may have gaps: where a parent is missing the walk stays on its block and reads it again, so
a gap shortens the effective window and is no failure.

A walk ends at height zero, at the end of its window, or when the visitor stops it. What a visitor
does with a block is its own affair; `walk` passes it the blocks of the sequence `read` one after
the other.
-/

namespace HeaderRules

/-- How many blocks a walk may visit. Where no maximum is set, the range of the 64-bit counter of
visited blocks bounds the walk. -/
def WindowBounds.limit (window : WindowBounds) : Nat :=
  if window.max = 0 then UInt64.size else window.max.toNat

namespace Gravity

/-- The stored parent of a block, or the block itself where the parent is missing. -/
def stepBack (history : History) (b : StoredBlock) : StoredBlock :=
  (history b.prevBlockHash).getD b

/-- The block that a walk from `b` reads after `k` steps. -/
def read (history : History) (b : StoredBlock) (k : Nat) : StoredBlock :=
  Nat.repeat (stepBack history) k b

/-- What a visitor makes of a block: a state to go on with, or one to stop at. -/
inductive Visit (σ : Type) where
  | next (state : σ)
  | stop (state : σ)

/-- Visits at most `limit` blocks from `b` backward and returns the last state. -/
def walk {σ : Type} (visit : σ → StoredBlock → Except VerificationError (Visit σ))
    (history : History) : (limit : Nat) → StoredBlock → σ → Except VerificationError σ
  | 0, _, state => .ok state
  | limit + 1, b, state =>
    if b.height = 0 then .ok state
    else
      match visit state b with
      | .ok (.next state) => walk visit history limit (stepBack history b) state
      | .ok (.stop state) => .ok state
      | .error e => .error e

/-- Whether there is too little history for a window to be worth reading. -/
def tooShort (prev : StoredBlock) (window : WindowBounds) : Bool :=
  prev.height == 0 || prev.height.toUInt64 < window.min

end Gravity

end HeaderRules
