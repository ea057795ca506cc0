import HeaderRules.Gravity.Average
import HeaderRules.Gravity.Walk

/-!
# Dark Gravity Wave, third version

Targets are averaged over the newest part of the window with the weighted recurrence, the intervals
are summed over all of it, and the sum is kept between a third and three times the expected
timespan. All of it is integer arithmetic.

Windows may be far longer than histories are. Above a gap a walk reads the same block over and over,
and once its target is not averaged anymore these reads do no more than count. So they are not made
one by one (`run`), which changes nothing about the result (`target_eq_walk`).
-/

namespace HeaderRules.Gravity.Wave3

/-- What is known after some blocks. -/
structure State where
  /-- The number of blocks read. -/
  count : UInt64
  average : Target
  /-- The sum of the intervals. -/
  actual : Int64
  /-- The time of the last block read. -/
  lastTime : Int64
deriving DecidableEq, Repr

/-- Before the first block. -/
def State.initial : State := ⟨0, Target.zero, 0, 0⟩

/-- Reads one block. An interval counts only where the block before it has a positive time. -/
def visit (minimum : UInt64) (s : State) (b : StoredBlock) :
    Except VerificationError (Visit State) := do
  let count := s.count + 1
  let average ←
    if count ≤ minimum then do
      let target ← b.decodedTarget
      pure (if count = 1 then target else weightedAverage s.average target count)
    else pure s.average
  let time := seconds b.time
  let actual := if s.lastTime > 0 then s.actual + (s.lastTime - time) else s.actual
  return .next ⟨count, average, actual, time⟩

/-- Whether a walk with `limit` reads to go has come to rest at a block: enough targets are
averaged, the block was the last one read, its parent is missing, and the count stays in its
range. -/
def atRest (minimum : UInt64) (history : History) (limit : Nat) (b : StoredBlock) (s : State) :
    Bool :=
  minimum ≤ s.count && s.lastTime == seconds b.time && (history b.prevBlockHash).isNone &&
    s.count.toNat + limit < UInt64.size

/-- Walks over the window. At rest the reads to go do no more than count, so they are counted
together. -/
def run (minimum : UInt64) (history : History) :
    (limit : Nat) → StoredBlock → State → Except VerificationError State
  | 0, _, s => .ok s
  | limit + 1, b, s =>
    if b.height = 0 then .ok s
    else if atRest minimum history (limit + 1) b s then
      .ok { s with count := s.count + .ofNat (limit + 1) }
    else
      match visit minimum s b with
      | .ok (.next s) => run minimum history limit (stepBack history b) s
      | .ok (.stop s) => .ok s
      | .error e => .error e

/-- The target of the block after `prev`. -/
def target (prev : StoredBlock) (history : History) (spacing : UInt32) (window : WindowBounds)
    (maxTarget : Target) : Except VerificationError Target :=
  if tooShort prev window then .ok maxTarget
  else
    (run window.min history window.limit prev State.initial).map fun s =>
      let expected := signedCount s.count * seconds spacing
      let actual := min (max s.actual (expected / 3)) (expected * 3)
      scale s.average actual expected

/-! ## The walk read by read -/

section

variable {minimum : UInt64} {history : History} {limit : Nat} {b : StoredBlock} {s : State}

theorem atRest_iff :
    atRest minimum history limit b s = true ↔
      minimum ≤ s.count ∧ s.lastTime = seconds b.time ∧ history b.prevBlockHash = none ∧
        s.count.toNat + limit < UInt64.size := by
  simp [atRest, and_assoc]

/-- A read at rest counts, and the walk stays at rest. -/
theorem visit_of_atRest (h : atRest minimum history (limit + 1) b s = true) :
    visit minimum s b = .ok (.next { s with count := s.count + 1 }) ∧ stepBack history b = b ∧
      atRest minimum history limit b { s with count := s.count + 1 } = true := by
  obtain ⟨henough, htime, hmissing, hrange⟩ := atRest_iff.1 h
  have hcount : (s.count + 1).toNat = s.count.toNat + 1 := by
    rw [UInt64.toNat_add, UInt64.toNat_one]
    exact Nat.mod_eq_of_lt (by simp only [UInt64.size] at hrange; omega)
  rw [UInt64.le_iff_toNat_le] at henough
  refine ⟨?visit, ?stays, ?rest⟩
  case visit =>
    have hdone : ¬s.count + 1 ≤ minimum := by
      rw [UInt64.le_iff_toNat_le, hcount]
      omega
    have hnone : s.actual + (seconds b.time - seconds b.time) = s.actual := by
      rw [Int64.sub_self, Int64.add_zero]
    simp only [visit, if_neg hdone, htime, hnone, ite_self]
    rw [← htime]
    rfl
  case stays => rw [stepBack, hmissing, Option.getD_none]
  case rest =>
    refine atRest_iff.2 ⟨?_, htime, hmissing, ?_⟩
    · rw [UInt64.le_iff_toNat_le, hcount]
      omega
    · rw [hcount]
      omega

/-- A walk at rest counts the reads to go. -/
theorem walk_of_atRest (hheight : b.height ≠ 0) (h : atRest minimum history limit b s = true) :
    walk (visit minimum) history limit b s = .ok { s with count := s.count + .ofNat limit } := by
  induction limit generalizing s with
  | zero =>
    have hcount : s.count + .ofNat 0 = s.count := UInt64.add_zero _
    rw [walk, hcount]
  | succ limit ih =>
    obtain ⟨hvisit, hstays, hrest⟩ := visit_of_atRest h
    have hcount : s.count + 1 + .ofNat limit = s.count + .ofNat (limit + 1) := by
      rw [UInt64.ofNat_add, UInt64.add_assoc, UInt64.add_comm 1]
      rfl
    rw [walk, if_neg hheight, hvisit]
    simp only [hstays]
    rw [ih hrest, hcount]

/-- What is counted together could as well be read one by one. -/
theorem run_eq_walk (minimum : UInt64) (history : History) (limit : Nat) (b : StoredBlock)
    (s : State) : run minimum history limit b s = walk (visit minimum) history limit b s := by
  induction limit generalizing b s with
  | zero => rfl
  | succ limit ih =>
    rw [run]
    split
    case isTrue hzero => rw [walk, if_pos hzero]
    case isFalse hheight =>
      split
      case isTrue hrest => rw [walk_of_atRest hheight hrest]
      case isFalse =>
        rw [walk, if_neg hheight]
        rcases visit minimum s b with e | (next | last)
        · rfl
        · exact ih _ _
        · rfl

end

/-- The target comes from the walk that visits the blocks of the window one after the other. -/
theorem target_eq_walk (prev : StoredBlock) (history : History) (spacing : UInt32)
    (window : WindowBounds) (maxTarget : Target) :
    target prev history spacing window maxTarget =
      if tooShort prev window then .ok maxTarget
      else
        (walk (visit window.min) history window.limit prev State.initial).map fun s =>
          let expected := signedCount s.count * seconds spacing
          let actual := min (max s.actual (expected / 3)) (expected * 3)
          scale s.average actual expected := by
  rw [target, run_eq_walk]

end HeaderRules.Gravity.Wave3
