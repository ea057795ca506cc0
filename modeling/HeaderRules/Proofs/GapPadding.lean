import HeaderRules.Proofs.GravityWalk
import HeaderRules.Proofs.LittleEndian
import HeaderRules.Proofs.RetargetCheck

/-!
# Gaps are padding

A gravity-well walk that does not find a parent stays on its block, so a history with a gap is read
as if its last available block went on for the rest of the window. What such a walk computes is what
it would compute over a history without gaps that holds copies of that block
(`Gravity.Algorithm.gaps_are_padding`).

The argument compares two walks read by read. Above height zero an algorithm sees of a block its
time and its code and, for one of the algorithms, on which side of one height it lies. So two walks
whose reads agree in these go through the same states. They part only in the height that they report
where a code does not decode.
-/

namespace HeaderRules

open Outcome

/-! ## Outcomes up to a reported height -/

/-- Two computations have the same result, or fail on the same code that does not decode, each at a
height of its own. -/
inductive SameOutcome {α : Type} :
    Except VerificationError α → Except VerificationError α → Prop where
  | ok (x : α) : SameOutcome (.ok x) (.ok x)
  | undecodable {bits : CompactTarget} (height height' : UInt32)
      (h : Target.ofCompact? bits = none) :
      SameOutcome (.error (.invalidStoredTarget bits height))
        (.error (.invalidStoredTarget bits height'))

namespace SameOutcome

variable {α β : Type} {x y : Except VerificationError α} {a b : StoredBlock}

theorem map (h : SameOutcome x y) (f : α → β) : SameOutcome (x.map f) (y.map f) := by
  cases h with
  | ok r => exact .ok (f r)
  | undecodable height height' hnone => exact .undecodable height height' hnone

theorem decodedTarget (h : a.bits = b.bits) : SameOutcome a.decodedTarget b.decodedTarget := by
  rw [StoredBlock.decodedTarget, StoredBlock.decodedTarget, StoredBlock.target?,
    StoredBlock.target?, h]
  cases hdecoded : Target.ofCompact? b.bits with
  | some target => exact .ok target
  | none => exact .undecodable a.height b.height hdecoded

theorem eq_ok {r : α} (h : SameOutcome x y) (hx : x = .ok r) : y = .ok r := by
  cases h with
  | ok r' => exact hx
  | undecodable => exact nomatch hx

/-- A visit that decodes the target only of some blocks makes the same of all others. -/
theorem ite_bind {p : Prop} [Decidable p] {read : α → β} {skip : β} (h : SameOutcome x y) :
    SameOutcome (if p then x >>= fun r => .ok (read r) else .ok skip)
      (if p then y >>= fun r => .ok (read r) else .ok skip) := by
  by_cases hp : p
  · rw [if_pos hp, if_pos hp]
    exact h.map read
  · rw [if_neg hp, if_neg hp]
    exact .ok skip

end SameOutcome

namespace Gravity

open StoredBlock

/-! ## The loop -/

section

variable {σ : Type}

/-- The loop of a gravity-well algorithm, from the counter `i`, the block `b` and the state `s` on:
how many blocks it visits, and with what outcome it ends. It is over at height zero, when a window
with a maximum is used up, and when a visit stops it or fails. -/
inductive Loop (visit : σ → StoredBlock → Except VerificationError (Visit σ)) (history : History)
    (max : Nat) : (i : Nat) → StoredBlock → σ → (visited : Nat) →
      Except VerificationError σ → Prop where
  | bottom {i b s} (hheight : b.height = 0) : Loop visit history max i b s 0 (.ok s)
  | window {i b s} (hheight : b.height ≠ 0) (hpast : 0 < max ∧ max < i) :
      Loop visit history max i b s 0 (.ok s)
  | failed {i b s e} (hheight : b.height ≠ 0) (hpast : ¬(0 < max ∧ max < i))
      (hvisit : visit s b = .error e) : Loop visit history max i b s 1 (.error e)
  | stopped {i b s s'} (hheight : b.height ≠ 0) (hpast : ¬(0 < max ∧ max < i))
      (hvisit : visit s b = .ok (.stop s')) : Loop visit history max i b s 1 (.ok s')
  | next {i b s s' n outcome} (hheight : b.height ≠ 0) (hpast : ¬(0 < max ∧ max < i))
      (hvisit : visit s b = .ok (.next s'))
      (hrest : Loop visit history max (i + 1) (stepBack history b) s' n outcome) :
      Loop visit history max i b s (n + 1) outcome

variable {visit : σ → StoredBlock → Except VerificationError (Visit σ)} {history S T : History}
  {max limit i n : Nat} {a b : StoredBlock} {s : σ} {outcome : Except VerificationError σ}

/-- With as many visits left as the counter is below the end of the window, the loop ends as the
walk does. -/
theorem exists_loop (hmax : 0 < max) (hi : i + limit = max + 1) :
    ∃ n, Loop visit history max i b s n (walk visit history limit b s) := by
  induction limit generalizing i b s with
  | zero =>
    by_cases hheight : b.height = 0
    · exact ⟨0, .bottom hheight⟩
    · exact ⟨0, .window hheight ⟨hmax, by omega⟩⟩
  | succ limit ih =>
    rw [walk]
    split_ifs with hheight
    · exact ⟨0, .bottom hheight⟩
    · have hpast : ¬(0 < max ∧ max < i) := by omega
      rcases hvisit : visit s b with e | (s' | s')
      · exact ⟨1, .failed hheight hpast hvisit⟩
      · have hnext : i + 1 + limit = max + 1 := by omega
        obtain ⟨n, hrest⟩ := ih (b := stepBack history b) (s := s') hnext
        exact ⟨n + 1, .next hheight hpast hvisit hrest⟩
      · exact ⟨1, .stopped hheight hpast hvisit⟩

/-- Every run of the loop visits no more blocks than the walk may, and ends as it does. -/
theorem Loop.walk_eq (h : Loop visit history max i b s n outcome) (hmax : 0 < max)
    (hi : i + limit = max + 1) : n ≤ limit ∧ walk visit history limit b s = outcome := by
  induction h generalizing limit with
  | bottom hheight =>
    refine ⟨limit.zero_le, ?_⟩
    cases limit with
    | zero => rfl
    | succ limit => rw [walk, if_pos hheight]
  | window _ hpast =>
    obtain rfl : limit = 0 := by omega
    exact ⟨le_rfl, rfl⟩
  | failed hheight hpast hvisit =>
    obtain ⟨limit, rfl⟩ : ∃ m, limit = m + 1 := ⟨limit - 1, by omega⟩
    exact ⟨by omega, by rw [walk, if_neg hheight, hvisit]⟩
  | stopped hheight hpast hvisit =>
    obtain ⟨limit, rfl⟩ : ∃ m, limit = m + 1 := ⟨limit - 1, by omega⟩
    exact ⟨by omega, by rw [walk, if_neg hheight, hvisit]⟩
  | next hheight hpast hvisit _ ih =>
    obtain ⟨limit, rfl⟩ : ∃ m, limit = m + 1 := ⟨limit - 1, by omega⟩
    obtain ⟨hn, hwalk⟩ := ih (Nat.add_right_comm _ 1 limit ▸ hi)
    refine ⟨by omega, ?_⟩
    rw [walk, if_neg hheight, hvisit]
    exact hwalk

/-! ## Walks side by side -/

/-- Two walks that stay above height zero have the same outcome if their visitor does on whatever
blocks they read at the same time. -/
theorem walk_sameOutcome (hreads : ∀ k < limit, (read S a k).height ≠ 0 ∧ (read T b k).height ≠ 0 ∧
      ∀ s, SameOutcome (visit s (read S a k)) (visit s (read T b k))) :
    SameOutcome (walk visit S limit a s) (walk visit T limit b s) := by
  induction limit generalizing a b s with
  | zero => exact .ok s
  | succ limit ih =>
    obtain ⟨ha, hb, hvisit⟩ : a.height ≠ 0 ∧ b.height ≠ 0 ∧
      ∀ s, SameOutcome (visit s a) (visit s b) := hreads 0 limit.succ_pos
    have hfirst := hvisit s
    rw [walk, walk, if_neg ha, if_neg hb]
    generalize visit s a = x, visit s b = y at hfirst ⊢
    cases hfirst with
    | undecodable height height' hnone => exact .undecodable height height' hnone
    | ok outcome =>
      cases outcome with
      | stop s' => exact .ok s'
      | next s' =>
        refine ih fun k hk => ?_
        rw [← read_succ, ← read_succ]
        exact hreads (k + 1) (by omega)

end

/-! ## Reads along a stored path -/

section

variable {history : History} {prev : StoredBlock} {n : Nat}

/-- A history holds the first blocks of a sequence, each as the parent of the one before it. -/
def Holds (history : History) (blocks : Nat → StoredBlock) (n : Nat) : Prop :=
  ∀ k, k + 1 < n → history (blocks k).prevBlockHash = some (blocks (k + 1))

/-- Along a path that is held there are no gaps, and the walk reads the path. -/
theorem Holds.read_eq {blocks : Nat → StoredBlock} (h : Holds history blocks n) {k : Nat}
    (hk : k < n) : read history (blocks 0) k = blocks k := by
  induction k with
  | zero => rfl
  | succ k ih =>
    rw [read_succ', ih (by omega), stepBack, h k hk]
    rfl

/-- The block that a walk reads after `k` steps, under a number of its own and linked to the next
one. -/
def paddedBlock (history : History) (prev : StoredBlock) (k : Nat) : StoredBlock where
  hash := numberedHash k
  header := { (read history prev k).header with prevBlockHash := numberedHash (k + 1) }
  height := (read history prev k).height

/-- The history that holds what a walk reads as blocks of their own. It has no gap. -/
def paddedHistory (history : History) (prev : StoredBlock) : History :=
  fun hash => some (paddedBlock history prev (ofLittleEndian hash.internal.toList))

theorem sameData_paddedBlock (history : History) (prev : StoredBlock) (k : Nat) :
    SameData (read history prev k) (paddedBlock history prev k) := ⟨rfl, rfl, rfl⟩

theorem paddedHistory_numberedHash {k : Nat} (hk : k < 256 ^ 32) :
    paddedHistory history prev (numberedHash k) = some (paddedBlock history prev k) := by
  have hnumber : ofLittleEndian (numberedHash k).internal.toList = k := by
    rw [numberedHash, ofLittleEndian_littleEndian, Nat.mod_eq_of_lt hk]
  rw [paddedHistory, hnumber]

theorem holds_paddedHistory (hn : n ≤ 256 ^ 32) :
    Holds (paddedHistory history prev) (paddedBlock history prev) n :=
  fun _ hk => paddedHistory_numberedHash (hk.trans_le hn)

end

/-! ## What an algorithm sees of a block -/

namespace Algorithm

/-- Above height zero, a walk of an algorithm does not tell two blocks apart. -/
structure Interchangeable (w : Algorithm) (a b : StoredBlock) : Prop where
  time : a.time = b.time
  bits : a.bits = b.bits
  height_left : a.height ≠ 0
  height_right : b.height ≠ 0
  /-- The Kimoto Gravity Well has a least number of elapsed seconds above one height. -/
  elapsedFloor : w = kimoto →
    (a.height > Kimoto.elapsedFloorHeight ↔ b.height > Kimoto.elapsedFloorHeight)

variable {w : Algorithm} {a b : StoredBlock}

/-- A visit makes the same of interchangeable blocks. -/
theorem Interchangeable.visit (h : w.Interchangeable a b) (newest spacing : UInt32)
    (minimum : UInt64) (s : w.State) :
    SameOutcome (w.visit newest spacing minimum s a) (w.visit newest spacing minimum s b) := by
  have htarget := SameOutcome.decodedTarget h.bits
  cases w with
  | kimoto =>
    have hfloor : Kimoto.elapsedFloor a.height = Kimoto.elapsedFloor b.height :=
      if_congr (h.elapsedFloor rfl) rfl rfl
    simp only [Algorithm.visit, Kimoto.visit, h.time, hfloor]
    generalize a.decodedTarget = x, b.decodedTarget = y at htarget ⊢
    cases htarget with
    | ok target => exact .ok _
    | undecodable height height' hnone => exact .undecodable height height' hnone
  | wave =>
    simp only [Algorithm.visit, Wave.visit, h.time]
    exact htarget.ite_bind
  | wave3 =>
    simp only [Algorithm.visit, Wave3.visit, h.time]
    exact htarget.ite_bind

/-! ## The target -/

variable {S T : History} {prev prev' : StoredBlock} {spacing : UInt32} {window : WindowBounds}
  {easiest : Target}

theorem target_eq_of_reads (hmax : window.max ≠ 0)
    (hreads : ∀ k < window.max.toNat, SameData (read S prev k) (read T prev' k)) :
    w.target prev S spacing window easiest = w.target prev' T spacing window easiest := by
  have hprev : SameData prev prev' := hreads 0 (WindowBounds.toNat_max_pos hmax)
  rw [target_eq, target_eq, tooShort_eq hprev, hprev.time, WindowBounds.limit_eq hmax,
    walk_eq_of_reads (w.isReader_visit _ _ _) hreads]

theorem target_sameOutcome (hmax : window.max ≠ 0) (hheight : prev.height = prev'.height)
    (hreads : ∀ k < window.max.toNat, w.Interchangeable (read S prev k) (read T prev' k)) :
    SameOutcome (w.target prev S spacing window easiest)
      (w.target prev' T spacing window easiest) := by
  have hprev : w.Interchangeable prev prev' := hreads 0 (WindowBounds.toNat_max_pos hmax)
  have hshort : tooShort prev window = tooShort prev' window := by
    rw [tooShort, hheight, tooShort]
  rw [target_eq, target_eq, hshort, hprev.time, WindowBounds.limit_eq hmax]
  split_ifs
  · exact .ok easiest
  · exact (walk_sameOutcome fun k hk =>
      ⟨(hreads k hk).height_left, (hreads k hk).height_right, (hreads k hk).visit _ _ _⟩).map _

/-- Where all codes of the window decode, there is a target. -/
theorem exists_target_eq_ok (hmax : window.max ≠ 0)
    (hdecoded : ∀ k < window.max.toNat, (read S prev k).target? ≠ none) :
    ∃ t, w.target prev S spacing window easiest = .ok t := by
  rw [target_eq, WindowBounds.limit_eq hmax]
  split_ifs
  · exact ⟨easiest, rfl⟩
  · rcases ok_or_error (walk (w.visit prev.time spacing window.min) S window.max.toNat prev
      w.initial) with ⟨s, hs⟩ | ⟨e, he⟩
    · exact ⟨w.result spacing s, map_eq_ok_iff.2 ⟨s, hs, rfl⟩⟩
    · obtain ⟨k, hk, s, hfails⟩ := exists_visit_error_of_walk he
      have herror := (w.isReader_visit _ _ _).undecodable _ _ _ hfails
      exact absurd (decodedTarget_eq_error_iff.1 herror).1 (hdecoded k hk)

/-- A block of which the parent is not known. -/
def lowerBlock : StoredBlock where
  hash := numberedHash 1
  header := { bareHeader 1400000000 ⟨0x1c00ffff⟩ with prevBlockHash := numberedHash 0 }
  height := 70000

/-- The block after it. -/
def upperBlock : StoredBlock where
  hash := numberedHash 2
  header := { bareHeader 1400000100 ⟨0x1c00ffff⟩ with prevBlockHash := numberedHash 1 }
  height := 70001

theorem target?_upperBlock : upperBlock.target? = some (.ofNat (0xffff * 256 ^ 25)) := by
  decide +kernel

/-- The block with the missing identity, and with the time and the code of its child. -/
def copiedBlock : StoredBlock where
  hash := numberedHash 0
  header := bareHeader 1400000000 ⟨0x1c00ffff⟩
  height := 69999

/-- The history that knows the first block only. -/
def gappedHistory : History :=
  fun hash => if hash = numberedHash 1 then some lowerBlock else none

/-- The history that knows the copy as well. -/
def filledHistory : History :=
  fun hash => if hash = numberedHash 0 then some copiedBlock else gappedHistory hash

end Algorithm

end Gravity

end HeaderRules
