import HeaderRules.Proofs.CompleteHistory
import Mathlib.Data.ENat.Basic

/-!
# What the check of a header reads

The check reads history along the links that start at the previous block, and no further than the
rule in force needs. Two histories that give the same answers so far get the same judgement, however
much they differ elsewhere. Where there is no rule for long pauses, blocks are also exchangeable as
long as their heights, times, codes and links are the same.

The argument follows two histories side by side. They are *in step* from two blocks if their answers
correspond for some links, and every way back is then followed on both sides at once.
-/

namespace HeaderRules

open Outcome StoredBlock

/-- Two blocks have everything in common that the rules of retargeting read. -/
structure StoredBlock.Alike (a b : StoredBlock) : Prop extends SameData a b where
  prevBlockHash : a.prevBlockHash = b.prevBlockHash

theorem StoredBlock.Alike.refl (a : StoredBlock) : Alike a a := ⟨.refl a, rfl⟩

namespace History

variable {S T : History} {a b prev : StoredBlock} {k n : Nat}

/-- Two histories give the same answers for the first `hops` links back from a block. -/
def AgreeFor (S T : History) (hops : ℕ∞) (b : StoredBlock) : Prop :=
  ∀ k : Nat, (k : ℕ∞) < hops → ∀ a, S.ancestor k b = .ok a →
    S a.prevBlockHash = T a.prevBlockHash

theorem AgreeFor.mono {hops hops' : ℕ∞} (h : AgreeFor S T hops b) (hle : hops' ≤ hops) :
    AgreeFor S T hops' b := fun k hk => h k (hk.trans_le hle)

/-- Where both histories have the same parent, they agree from it for one link less. -/
theorem AgreeFor.parent (h : AgreeFor S T (n + 1 : Nat) b) (ha : S b.prevBlockHash = some a) :
    AgreeFor S T n a := by
  intro k hk p hp
  refine h (k + 1) ?_ p (ancestor_succ_eq_ok_iff.2 ⟨a, ha, hp⟩)
  rw [Nat.cast_lt] at hk ⊢
  omega

/-! ## Histories in step -/

/-- From two blocks that are alike, two histories have for `n` links no parents or parents that are
in step themselves. -/
def InStep (S T : History) : Nat → StoredBlock → StoredBlock → Prop
  | 0, a, b => Alike a b
  | n + 1, a, b => Alike a b ∧ Option.Rel (InStep S T n) (S a.prevBlockHash) (T b.prevBlockHash)

theorem InStep.alike (h : InStep S T n a b) : Alike a b := by
  cases n with
  | zero => exact h
  | succ n => exact h.1

theorem InStep.pred (h : InStep S T (n + 1) a b) : InStep S T n a b := by
  induction n generalizing a b with
  | zero => exact h.1
  | succ n ih =>
    obtain ⟨halike, hparents⟩ := h
    refine ⟨halike, ?_⟩
    generalize S a.prevBlockHash = p, T b.prevBlockHash = q at hparents ⊢
    cases hparents with
    | some h => exact .some (ih h)
    | none => exact .none

/-- Histories that agree are in step. -/
theorem AgreeFor.inStep (h : AgreeFor S T n b) : InStep S T n b b := by
  induction n generalizing b with
  | zero => exact .refl b
  | succ n ih =>
    have hsame : S b.prevBlockHash = T b.prevBlockHash :=
      h 0 (by rw [Nat.cast_lt]; omega) b rfl
    refine ⟨.refl b, ?_⟩
    rw [← hsame]
    cases ha : S b.prevBlockHash with
    | none => exact .none
    | some a => exact .some (ih (h.parent ha))

/-- Histories with alike blocks everywhere are in step from alike blocks. -/
theorem inStep_of_alike (h : ∀ hash, Option.Rel Alike (S hash) (T hash)) (hab : Alike a b)
    (n : Nat) : InStep S T n a b := by
  induction n generalizing a b with
  | zero => exact hab
  | succ n ih =>
    refine ⟨hab, ?_⟩
    have hparents := h a.prevBlockHash
    rw [hab.prevBlockHash] at hparents ⊢
    generalize S b.prevBlockHash = p, T b.prevBlockHash = q at hparents ⊢
    cases hparents with
    | some h => exact .some (ih h)
    | none => exact .none

/-- In step, both ways back lead to blocks of the same time, or lack the same block. -/
theorem InStep.time_ancestor (h : InStep S T n a b) (hk : k ≤ n) :
    (S.ancestor k a).map time = (T.ancestor k b).map time := by
  induction k generalizing n a b with
  | zero => exact congrArg Except.ok h.alike.time
  | succ k ih =>
    obtain ⟨n, rfl⟩ : ∃ m, n = m + 1 := ⟨n - 1, by omega⟩
    obtain ⟨halike, hparents⟩ := h
    rw [ancestor, ancestor, parent, parent, halike.prevBlockHash, halike.height]
    rw [halike.prevBlockHash] at hparents
    generalize S b.prevBlockHash = p, T b.prevBlockHash = q at hparents ⊢
    cases hparents with
    | some h => exact ih h (by omega)
    | none => rfl

/-- In step, a walk goes on from blocks that are in step for one link less. -/
theorem InStep.stepBack (h : InStep S T (n + 1) a b) :
    InStep S T n (Gravity.stepBack S a) (Gravity.stepBack T b) := by
  have hstay := h.pred
  obtain ⟨-, hparents⟩ := h
  rw [Gravity.stepBack, Gravity.stepBack]
  generalize S a.prevBlockHash = p, T b.prevBlockHash = q at hparents ⊢
  -- Without a parent both walks stay where they are.
  cases hparents with
  | some h => exact h
  | none => exact hstay

/-- In step, two walks read the same data. -/
theorem InStep.read (h : InStep S T n a b) (hk : k ≤ n) :
    SameData (Gravity.read S a k) (Gravity.read T b k) := by
  induction k generalizing n a b with
  | zero => exact h.alike.toSameData
  | succ k ih =>
    obtain ⟨n, rfl⟩ : ∃ m, n = m + 1 := ⟨n - 1, by omega⟩
    rw [Gravity.read_succ, Gravity.read_succ]
    exact ih h.stepBack (by omega)

end History

/-! ## The rules on histories in step -/

namespace ChainParams

open History

variable {c : ChainParams} {S T : History} {prev prev' : StoredBlock} {interval : UInt32}

/-- How many links back the required target is computed from. -/
def reach (c : ChainParams) (prev : StoredBlock) : ℕ∞ :=
  match c.params.window? (nextHeight prev.height) with
  | none => (c.params.retargetBlockspan prev.height).toNat
  | some window => if window.max = 0 then ⊤ else (window.max.toNat - 1 : Nat)

/-- How many links back the check of a header reads. -/
def hops (c : ChainParams) (prev : StoredBlock) (next : Header) : ℕ∞ :=
  if c.params.shouldRetarget prev.height then c.reach prev
  else if c.activeMinDifficulty next then ⊤ else 0

/-- A walk visits no block beyond the links that it needs. -/
theorem cast_le_reach_of_lt_limit {window : WindowBounds}
    (hwindow : c.params.window? (nextHeight prev.height) = some window) {k : Nat}
    (hk : k < window.limit) : (k : ℕ∞) ≤ c.reach prev := by
  rw [reach, hwindow]
  by_cases hmax : window.max = 0
  · simp [hmax]
  · rw [WindowBounds.limit_eq hmax] at hk
    simp only [hmax, if_false, Nat.cast_le]
    omega

theorem ratioTarget_eq_of_inStep
    (h : InStep S T (c.params.retargetBlockspan prev.height).toNat prev prev') :
    c.ratioTarget prev S = c.ratioTarget prev' T := by
  have halike := h.alike
  have htimespan : c.timespan prev S = c.timespan prev' T := by
    rw [timespan_eq_map, timespan_eq_map, h.time_ancestor le_rfl, halike.height, halike.time]
  rw [ratioTarget, ratioTarget, htimespan, halike.decodedTarget, halike.height]

theorem computedTarget_eq_of_reads {window : WindowBounds}
    (hwindow : c.params.window? (nextHeight prev.height) = some window)
    (hreads : ∀ k < window.limit, SameData (Gravity.read S prev k) (Gravity.read T prev' k))
    (hsame : SameData prev' prev) :
    c.computedTarget prev S = c.computedTarget prev' T := by
  obtain ⟨σ, visit, initial, result, hreader, hresult⟩ := isWalkOver_of_window hwindow
  rw [hresult prev S (.refl prev), hresult prev' T hsame,
    Gravity.walk_eq_of_reads hreader hreads]

/-- The required target is the same on histories that are in step as far as it reads. -/
theorem requiredTarget_eq_of_inStep
    (h : ∀ n : Nat, (n : ℕ∞) ≤ c.reach prev → InStep S T n prev prev') :
    c.requiredTarget prev S = c.requiredTarget prev' T := by
  have halike : Alike prev prev' := h 0 (by simp)
  have hcomputed : c.computedTarget prev S = c.computedTarget prev' T := by
    cases hwindow : c.params.window? (nextHeight prev.height) with
    | none =>
      have hwindow' := hwindow
      rw [halike.height] at hwindow'
      rw [computedTarget_of_no_window hwindow, computedTarget_of_no_window hwindow']
      exact ratioTarget_eq_of_inStep (h _ (by rw [reach, hwindow]))
    | some window =>
      refine computedTarget_eq_of_reads hwindow (fun k hk => ?_)
        ⟨halike.height.symm, halike.time.symm, halike.bits.symm⟩
      exact (h k (cast_le_reach_of_lt_limit hwindow hk)).read le_rfl
  rw [requiredTarget, requiredTarget, hcomputed]

/-- The search for the last real difficulty is the same on histories that agree all the way. -/
theorem lastRealBlock_eq_of_agree {b : StoredBlock} (h : AgreeFor S T ⊤ b) (limit : Nat) :
    c.lastRealBlock interval S limit b = c.lastRealBlock interval T limit b := by
  induction limit generalizing b with
  | zero => rfl
  | succ limit ih =>
    have hsame : S b.prevBlockHash = T b.prevBlockHash := h 0 (ENat.natCast_lt_top 0) b rfl
    rw [lastRealBlock, lastRealBlock, parent, parent, ← hsame]
    cases ha : S b.prevBlockHash with
    | none => rfl
    | some a =>
      have hrest := ih (b := a) fun k _ p hp =>
        h (k + 1) (ENat.natCast_lt_top _) p (ancestor_succ_eq_ok_iff.2 ⟨a, ha, hp⟩)
      simp only [hrest]

/-- The check of a header has the same result on two histories that give the same answers for as
many links as the rule in force reads: none between retarget points, the measured interval for a
ratio retarget, one less than its window for a gravity-well algorithm with a bounded window, and the
whole way where the rule for long pauses is in force.

Without a rule for long pauses only the code of the header counts, and blocks that differ neither in
height, time and code nor in the block before them are exchangeable. -/
theorem check_reads_no_further (c : ChainParams) :
    (∀ prev next S T, AgreeFor S T (c.hops prev next) prev →
      c.checkDifficulty prev next S = c.checkDifficulty prev next T) ∧
    (c.params.minDifficulty = none →
      ∀ prev prev' next next' S T, next.bits = next'.bits → Alike prev prev' →
        (∀ hash, Option.Rel Alike (S hash) (T hash)) →
        c.checkDifficulty prev next S = c.checkDifficulty prev' next' T) := by
  constructor
  · intro prev next S T hagree
    rw [checkDifficulty, checkDifficulty]
    by_cases hpoint : c.params.shouldRetarget prev.height = true
    · rw [hops, if_pos hpoint] at hagree
      rw [if_pos hpoint, if_pos hpoint,
        requiredTarget_eq_of_inStep fun n hn => (hagree.mono hn).inStep]
    · rw [if_neg hpoint, if_neg hpoint]
      by_cases hactive : c.activeMinDifficulty next = true
      · rw [hops, if_neg hpoint, if_pos hactive] at hagree
        rw [if_pos hactive, if_pos hactive, checkMinDifficulty, checkMinDifficulty,
          lastRealBlock_eq_of_agree hagree]
      · rw [if_neg hactive, if_neg hactive]
  · intro hrule prev prev' next next' S T hbits halike hstores
    have hinactive : ∀ next, ¬c.activeMinDifficulty next = true := by
      intro next
      simp [activeMinDifficulty, hrule]
    rw [checkDifficulty, checkDifficulty, if_neg (hinactive next), if_neg (hinactive next'),
      requiredTarget_eq_of_inStep fun n _ => inStep_of_alike hstores halike n, halike.height,
      halike.bits, hbits]

/-! ### Two histories that part below the measured interval -/

/-- The history that knows the block at height zero and finds the second block everywhere else, so
that its links lead around in a circle. -/
def circularHistory : History :=
  fun hash => if hash = numberedHash 1 then some bottomBlock else some secondBlock

/-- The retarget after the second block does not look at what is below the block at height zero. -/
theorem briskDogecoin_reads_one_link :
    bottomHistory bottomBlock.prevBlockHash ≠ circularHistory bottomBlock.prevBlockHash ∧
      briskDogecoin.checkDifficulty secondBlock (bareHeader 1400000120 ⟨0x1c00ffff⟩)
          bottomHistory =
        briskDogecoin.checkDifficulty secondBlock (bareHeader 1400000120 ⟨0x1c00ffff⟩)
          circularHistory := by
  have hhops : briskDogecoin.hops secondBlock (bareHeader 1400000120 ⟨0x1c00ffff⟩) = 1 := by
    have hpoint : briskDogecoin.params.shouldRetarget secondBlock.height = true := by
      decide +kernel
    rw [hops, if_pos hpoint]
    rfl
  have hagree : AgreeFor bottomHistory circularHistory
      (briskDogecoin.hops secondBlock (bareHeader 1400000120 ⟨0x1c00ffff⟩)) secondBlock := by
    intro k hk a ha
    rw [hhops, Nat.cast_lt_one] at hk
    subst hk
    obtain rfl := ancestor_zero_eq_ok_iff.1 ha
    rfl
  exact ⟨by decide +kernel, (check_reads_no_further briskDogecoin).1 _ _ _ _ hagree⟩

end ChainParams

end HeaderRules
