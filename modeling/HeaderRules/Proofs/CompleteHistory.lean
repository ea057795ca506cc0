import HeaderRules.Proofs.GravityWalk
import HeaderRules.Proofs.MinDifficultySearch
import Mathlib.Tactic.IntervalCases

/-!
# Complete histories

Whoever holds every block below the previous one never lacks an ancestor. A ratio retarget measures
no further back than to the first block, the search for the last real difficulty is over at the
first block at the latest, and a gravity-well walk steps over gaps. All other failures of the check
have other reasons.
-/

namespace HeaderRules

open Outcome

/-! ## Failures that are no gaps -/

/-- A computation that does not fail for want of a block. -/
def NeverMissing {α : Type} (x : Except VerificationError α) : Prop :=
  ∀ hash height, x ≠ .error (.missingAncestor hash height)

namespace NeverMissing

variable {α β : Type} {x : Except VerificationError α}

theorem ok (a : α) : NeverMissing (.ok a) := by
  intro hash height h
  cases h

theorem error {e : VerificationError} (he : ∀ hash height, e ≠ .missingAncestor hash height) :
    NeverMissing (.error e : Except VerificationError α) := by
  intro hash height h
  exact he hash height (Except.error.inj h)

theorem bind {f : α → Except VerificationError β} (hx : NeverMissing x)
    (hf : ∀ a, NeverMissing (f a)) : NeverMissing (x >>= f) := by
  intro hash height h
  rcases bind_eq_error_iff.1 h with herror | ⟨a, -, herror⟩
  · exact hx hash height herror
  · exact hf a hash height herror

theorem map (hx : NeverMissing x) (f : α → β) : NeverMissing (x.map f) := by
  intro hash height h
  exact hx hash height (map_eq_error_iff.1 h)

theorem decodedTarget (b : StoredBlock) : NeverMissing b.decodedTarget := by
  intro hash height h
  obtain ⟨-, h⟩ := StoredBlock.decodedTarget_eq_error_iff.1 h
  cases h

theorem walk {σ : Type} {visit : σ → StoredBlock → Except VerificationError (Gravity.Visit σ)}
    (hvisit : Gravity.IsReader visit) (history : History) (limit : Nat) (b : StoredBlock)
    (s : σ) : NeverMissing (Gravity.walk visit history limit b s) := by
  intro hash height h
  obtain ⟨k, -, state, hfails⟩ := Gravity.exists_visit_error_of_walk h
  exact decodedTarget _ hash height (hvisit.undecodable _ _ _ hfails)

end NeverMissing

/-! ## The three ways back -/

namespace ChainParams

variable {c : ChainParams} {history : History} {prev a : StoredBlock} {interval : UInt32} {k : Nat}

/-- The search for the last real difficulty passes over no block at height zero. -/
theorem Reaches.lt_height (h : c.Reaches interval history prev k a) (ha : c.IsPassed interval a)
    (hcomplete : history.Complete prev) : k < prev.height.toNat := by
  by_contra hle
  obtain ⟨first, hfirst, hheight⟩ := hcomplete.exists_ancestor le_rfl
  have hpassed : c.IsPassed interval first := by
    rcases Nat.lt_or_ge prev.height.toNat k with hlt | hge
    · exact h.passed _ hlt first hfirst
    · obtain rfl : k = prev.height.toNat := by omega
      obtain rfl := Except.ok.inj (h.stored.symm.trans hfirst)
      exact ha
  have hzero : first.height.toNat = 0 := by omega
  exact hpassed.2.1 (hzero ▸ dvd_zero _)

/-- With a complete history, the search finds a parent for every block that it passes over. -/
theorem Reaches.exists_parent (h : c.Reaches interval history prev k a)
    (ha : c.IsPassed interval a) (hcomplete : history.Complete prev) :
    ∃ p, history a.prevBlockHash = some p ∧ p.height.toNat + 1 = a.height.toNat := by
  have hlt := h.lt_height ha hcomplete
  obtain ⟨p, hp, hheight⟩ := hcomplete.exists_ancestor (k := k + 1) hlt
  obtain ⟨a', ha', hlink⟩ := History.ancestor_succ_eq_ok_iff'.1 hp
  obtain rfl := Except.ok.inj (ha'.symm.trans h.stored)
  obtain ⟨a'', ha'', hheight'⟩ := hcomplete.exists_ancestor (k := k) hlt.le
  obtain rfl := Except.ok.inj (ha''.symm.trans h.stored)
  exact ⟨p, hlink, by omega⟩

/-- With a complete history, the search for the last real difficulty comes to its end at height zero
or before, and does not fail for want of a block. -/
theorem search_ends_of_complete (hinterval : 0 < interval.toNat)
    (hcomplete : history.Complete prev) :
    ∃ n b, c.Reaches interval history prev n b ∧ b.height.toNat + n = prev.height.toNat ∧
      ((c.IsReal interval b ∧ c.lastRealBlock interval history searchLimit prev = .ok b) ∨
        (b.target? = none ∧ c.lastRealBlock interval history searchLimit prev =
          .error (.invalidStoredTarget b.bits b.height))) := by
  have hdescends : c.Descends interval history prev := by
    intro k a p h ha hp
    obtain ⟨p', hp', hheight⟩ := h.exists_parent ha hcomplete
    obtain rfl := Option.some.inj (hp.symm.trans hp')
    exact hheight
  obtain ⟨n, b, hb, hend⟩ :=
    lastRealBlock_outcome hinterval hdescends (mod_height_le_searchLimit prev interval)
  have hn : n ≤ prev.height.toNat := by
    have := hb.mod_height hinterval hdescends
    have := Nat.mod_le prev.height.toNat interval.toNat
    omega
  obtain ⟨b', hb', hheight⟩ := hcomplete.exists_ancestor hn
  obtain rfl := Except.ok.inj (hb'.symm.trans hb.stored)
  refine ⟨n, b', hb, hheight, ?_⟩
  rcases hend with hreal | ⟨e, herror, ⟨hnone, rfl⟩ | ⟨hpassed, hmissing, -⟩⟩
  · exact .inl hreal
  · exact .inr ⟨hnone, herror⟩
  · obtain ⟨p, hp, -⟩ := hb.exists_parent hpassed hcomplete
    cases hmissing.symm.trans hp

/-- A ratio retarget finds the block where the measured interval starts. -/
theorem neverMissing_ratioTarget (hcomplete : history.Complete prev)
    (hspan : c.params.retargetBlockspan prev.height ≤ prev.height) :
    NeverMissing (c.ratioTarget prev history) := by
  obtain ⟨start, hstart, -⟩ := hcomplete.exists_ancestor (UInt32.le_iff_toNat_le.1 hspan)
  have htimespan : NeverMissing (c.timespan prev history) := by
    rw [timespan, hstart, ok_bind]
    exact .ok _
  refine htimespan.bind fun _ => (NeverMissing.decodedTarget prev).bind fun _ => .ok _

/-- A gravity-well walk steps over gaps. -/
theorem neverMissing_of_window {window : WindowBounds}
    (hwindow : c.params.window? (nextHeight prev.height) = some window) (history : History) :
    NeverMissing (c.computedTarget prev history) := by
  obtain ⟨σ, visit, initial, result, hreader, hresult⟩ := isWalkOver_of_window hwindow
  rw [hresult prev history (.refl prev)]
  split_ifs
  · exact .ok _
  · exact (NeverMissing.walk hreader _ _ _ _).map _

/-- The search for the last real difficulty finds the blocks that it needs. -/
theorem neverMissing_checkMinDifficulty
    (hinterval : 0 < (c.params.intervalAt prev.height).toNat) (hcomplete : history.Complete prev)
    (next : Header) : NeverMissing (c.checkMinDifficulty prev next history) := by
  have hsearch : NeverMissing (c.lastRealBlock (c.params.intervalAt prev.height) history
      searchLimit prev) := by
    obtain ⟨n, b, -, -, ⟨-, hfound⟩ | ⟨-, herror⟩⟩ :=
      search_ends_of_complete (c := c) hinterval hcomplete
    · rw [hfound]
      exact .ok b
    · rw [herror]
      exact .error (by simp)
  rw [checkMinDifficulty]
  split_ifs
  · exact .ok ()
  · refine hsearch.bind fun real => ?_
    cases Target.ofCompact? next.bits with
    | none => exact .error (by simp)
    | some declared =>
      refine (NeverMissing.decodedTarget real).bind fun expected => ?_
      split_ifs
      · exact .error (by simp)
      · exact .ok ()

/-- Let the offset of measured intervals be at most one block, and the fast interval of a changing
schedule at least one. Then no ratio retarget measures beyond the first block. With a complete
history of the previous block the check of a header never lacks an ancestor, and the search for the
last real difficulty comes to its end at height zero or before. -/
theorem complete_history_lacks_no_ancestor (hoffset : c.params.intervalOffset ≤ 1)
    (hfast : ∀ fastHeight fastInterval bands,
      c.params.retarget = .varying fastHeight fastInterval bands → 1 ≤ fastInterval) :
    (∀ height, c.params.shouldRetarget height = true →
      c.params.window? (nextHeight height) = none → c.params.retargetBlockspan height ≤ height) ∧
    ∀ prev history, History.Complete history prev →
      (∀ next hash height,
        c.checkDifficulty prev next history ≠ .error (.missingAncestor hash height)) ∧
      ∃ n b, c.Reaches (c.params.intervalAt prev.height) history prev n b ∧
        b.height.toNat + n = prev.height.toNat ∧
        ((c.IsReal (c.params.intervalAt prev.height) b ∧
            c.lastRealBlock (c.params.intervalAt prev.height) history searchLimit prev = .ok b) ∨
          (b.target? = none ∧
            c.lastRealBlock (c.params.intervalAt prev.height) history searchLimit prev =
              .error (.invalidStoredTarget b.bits b.height))) := by
  have hinterval := c.intervalAt_pos hfast
  have hspan : ∀ height, c.params.shouldRetarget height = true →
      c.params.window? (nextHeight height) = none →
      c.params.retargetBlockspan height ≤ height := by
    intro height hpoint hwindow
    rcases Params.shouldRetarget_iff.1 hpoint with hgravity | ⟨hpos, hend⟩
    · rw [hwindow] at hgravity
      cases hgravity
    · exact Params.retargetBlockspan_le hoffset hpos hend
  refine ⟨hspan, fun prev history hcomplete =>
    ⟨fun next => ?_, search_ends_of_complete (hinterval prev.height) hcomplete⟩⟩
  show NeverMissing (c.checkDifficulty prev next history)
  rw [checkDifficulty]
  split_ifs with hpoint hactive hchanged
  · -- At a retarget point the target is computed by a walk or by ratio.
    have hcomputed : NeverMissing (c.computedTarget prev history) := by
      cases hwindow : c.params.window? (nextHeight prev.height) with
      | none =>
        rw [computedTarget_of_no_window hwindow]
        exact neverMissing_ratioTarget hcomplete (hspan prev.height hpoint hwindow)
      | some window => exact neverMissing_of_window hwindow history
    refine (hcomputed.map _).bind fun target => ?_
    rw [compareDeclared]
    split_ifs
    · exact .error (by simp)
    · exact .ok ()
  · exact neverMissing_checkMinDifficulty (hinterval prev.height) hcomplete next
  · exact .error (by simp)
  · exact .ok ()

/-! ### Two blocks and a retarget that needs both -/

/-- Dogecoin with a retarget at every block from the start. -/
def briskDogecoin : ChainParams := dogecoin.withRetarget (.varying 1 1 [])

/-- A block at height zero. -/
def bottomBlock : StoredBlock where
  hash := numberedHash 1
  header := { bareHeader 1400000000 ⟨0x1c00ffff⟩ with prevBlockHash := numberedHash 0 }
  height := 0

/-- The block on top of it. -/
def secondBlock : StoredBlock where
  hash := numberedHash 2
  header := { bareHeader 1400000060 ⟨0x1c00ffff⟩ with prevBlockHash := numberedHash 1 }
  height := 1

/-- The history that knows the block at height zero. -/
def bottomHistory : History := fun hash => if hash = numberedHash 1 then some bottomBlock else none

/-- The retarget after the second block measures one block back, to the block at height zero, and
does not look for one before it. -/
theorem briskDogecoin_retargets_from_two_blocks :
    briskDogecoin.params.shouldRetarget secondBlock.height = true ∧
      briskDogecoin.params.retargetBlockspan secondBlock.height = secondBlock.height ∧
      bottomHistory.Complete secondBlock ∧
      briskDogecoin.checkDifficulty secondBlock (bareHeader 1400000120 ⟨0x1c00ffff⟩)
        bottomHistory ≠ .error (.missingAncestor (numberedHash 0) 0) := by
  have hcomplete : bottomHistory.Complete secondBlock := by
    refine ⟨fun i => if i = 0 then bottomBlock else secondBlock, rfl, fun i hi => ?_,
      fun i hi => ?_⟩
    · have hi : i ≤ 1 := hi
      interval_cases i <;> rfl
    · have hi : i < 1 := hi
      obtain rfl : i = 0 := by omega
      exact if_pos rfl
  have hfast : ∀ fastHeight fastInterval bands, briskDogecoin.params.retarget =
      .varying fastHeight fastInterval bands → 1 ≤ fastInterval := by
    intro fastHeight fastInterval bands h
    obtain ⟨-, rfl, -⟩ := RetargetStrategy.varying.inj h
    decide
  obtain ⟨-, hcheck⟩ := complete_history_lacks_no_ancestor (c := briskDogecoin)
    (by decide +kernel) hfast
  exact ⟨by decide +kernel, by decide +kernel, hcomplete,
    (hcheck secondBlock bottomHistory hcomplete).1 _ _ _⟩

end ChainParams

end HeaderRules
