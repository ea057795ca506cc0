import HeaderRules.Ancestor
import HeaderRules.Proofs.Outcome

/-!
# Ancestors in a history

What it means that a block has an ancestor some links back, from either end of the path. A history
of a block is complete if it holds a block of every height below, each the parent of the next; then
the block has exactly as many ancestors as its height says (`Complete.exists_ancestor`).
-/

namespace HeaderRules

open Outcome

namespace StoredBlock

theorem decodedTarget_eq_ok_iff {b : StoredBlock} {t : Target} :
    b.decodedTarget = .ok t ↔ b.target? = some t := by
  rw [decodedTarget]
  cases b.target? <;> simp

theorem decodedTarget_eq_error_iff {b : StoredBlock} {e : VerificationError} :
    b.decodedTarget = .error e ↔
      b.target? = none ∧ e = .invalidStoredTarget b.bits b.height := by
  rw [decodedTarget]
  cases b.target? <;> simp [eq_comm]

end StoredBlock

/-- The hash with a given number, which sets the blocks of small histories apart. -/
def numberedHash (n : Nat) : BlockHash := ⟨⟨littleEndian 32 n, length_littleEndian 32 n⟩⟩

namespace History

variable {history : History} {b a : StoredBlock}

theorem parent_eq_ok_iff : history.parent b = .ok a ↔ history b.prevBlockHash = some a := by
  rw [parent]
  cases history b.prevBlockHash <;> simp

theorem parent_eq_error_iff {e : VerificationError} :
    history.parent b = .error e ↔ history b.prevBlockHash = none ∧
      e = .missingAncestor b.prevBlockHash (satSub b.height 1) := by
  rw [parent]
  cases history b.prevBlockHash <;> simp [eq_comm]

theorem ancestor_zero_eq_ok_iff : history.ancestor 0 b = .ok a ↔ b = a := by
  rw [ancestor, Except.ok.injEq]

/-- The first link leads to the parent. -/
theorem ancestor_succ_eq_ok_iff {k : Nat} :
    history.ancestor (k + 1) b = .ok a ↔
      ∃ p, history b.prevBlockHash = some p ∧ history.ancestor k p = .ok a := by
  rw [ancestor]
  simp only [← parent_eq_ok_iff]
  cases history.parent b <;> simp

/-- The last link leads to the parent of the ancestor one link less away. -/
theorem ancestor_succ_eq_ok_iff' {k : Nat} :
    history.ancestor (k + 1) b = .ok a ↔
      ∃ p, history.ancestor k b = .ok p ∧ history p.prevBlockHash = some a := by
  induction k generalizing b with
  | zero => simp only [ancestor_succ_eq_ok_iff, ancestor_zero_eq_ok_iff, exists_eq_right,
      exists_eq_left']
  | succ k ih =>
    rw [ancestor_succ_eq_ok_iff]
    simp only [ih, ancestor_succ_eq_ok_iff (b := b)]
    constructor
    · rintro ⟨q, hq, p, hp, ha⟩
      exact ⟨p, ⟨q, hq, hp⟩, ha⟩
    · rintro ⟨p, ⟨q, hq, hp⟩, ha⟩
      exact ⟨q, hq, p, hp, ha⟩

/-- The way back fails at the first block whose parent is missing. -/
theorem ancestor_eq_error_iff {n : Nat} {e : VerificationError} :
    history.ancestor n b = .error e ↔ ∃ k < n, ∃ a, history.ancestor k b = .ok a ∧
      history a.prevBlockHash = none ∧
        e = .missingAncestor a.prevBlockHash (satSub a.height 1) := by
  induction n generalizing b with
  | zero => exact iff_of_false nofun fun ⟨k, hk, _⟩ => absurd hk k.not_lt_zero
  | succ n ih =>
    rw [ancestor]
    cases hparent : history.parent b with
    | error e' =>
      obtain ⟨hnone, rfl⟩ := parent_eq_error_iff.1 hparent
      rw [Except.error.injEq]
      constructor
      · rintro rfl
        exact ⟨0, n.succ_pos, b, rfl, hnone, rfl⟩
      · rintro ⟨k, -, a, ha, -, rfl⟩
        cases k with
        | zero => rw [ancestor_zero_eq_ok_iff.1 ha]
        | succ k =>
          obtain ⟨p, hp, -⟩ := ancestor_succ_eq_ok_iff.1 ha
          exact nomatch hnone.symm.trans hp
    | ok p =>
      have hp := parent_eq_ok_iff.1 hparent
      refine ih.trans ⟨?_, ?_⟩
      · rintro ⟨k, hk, a, ha, hmissing⟩
        exact ⟨k + 1, Nat.succ_lt_succ hk, a, ancestor_succ_eq_ok_iff.2 ⟨p, hp, ha⟩, hmissing⟩
      · rintro ⟨k, hk, a, ha, hnone, he⟩
        cases k with
        | zero =>
          obtain rfl := ancestor_zero_eq_ok_iff.1 ha
          exact nomatch hnone.symm.trans hp
        | succ k =>
          obtain ⟨q, hq, ha⟩ := ancestor_succ_eq_ok_iff.1 ha
          obtain rfl := Option.some.inj (hp.symm.trans hq)
          exact ⟨k, Nat.lt_of_succ_lt_succ hk, a, ha, hnone, he⟩

/-! ## Complete histories -/

/-- A history holds all blocks below `prev`, one of each height down to zero, and each of them is
the parent of the next. -/
def Complete (history : History) (prev : StoredBlock) : Prop :=
  ∃ blocks : Nat → StoredBlock, blocks prev.height.toNat = prev ∧
    (∀ i ≤ prev.height.toNat, (blocks i).height.toNat = i) ∧
    ∀ i < prev.height.toNat, history (blocks (i + 1)).prevBlockHash = some (blocks i)

variable {prev : StoredBlock}

/-- As many links back as its height says, a block with a complete history has ancestors, and each
link leads down by one. -/
theorem Complete.exists_ancestor (h : Complete history prev) {k : Nat}
    (hk : k ≤ prev.height.toNat) :
    ∃ a, history.ancestor k prev = .ok a ∧ a.height.toNat + k = prev.height.toNat := by
  obtain ⟨blocks, htop, hheight, hlink⟩ := h
  have hblock : history.ancestor k prev = .ok (blocks (prev.height.toNat - k)) := by
    induction k with
    | zero => rw [ancestor, Nat.sub_zero, htop]
    | succ k ih =>
      refine ancestor_succ_eq_ok_iff'.2 ⟨_, ih (by omega), ?_⟩
      have hpred : prev.height.toNat - k = prev.height.toNat - (k + 1) + 1 := by omega
      rw [hpred]
      exact hlink _ (by omega)
  have hheight := hheight (prev.height.toNat - k) (by omega)
  exact ⟨_, hblock, by omega⟩

end History

end HeaderRules
