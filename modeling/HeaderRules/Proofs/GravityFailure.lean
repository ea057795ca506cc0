import HeaderRules.Proofs.GapPadding
import HeaderRules.Proofs.GravityRun

/-!
# Where a gravity-well algorithm fails

Local history may have any gaps, and none of them makes a gravity-well algorithm fail. What does is
a code without a target among those that the algorithm decodes: the blocks up to its end for the
Kimoto Gravity Well, the first ones up to the minimum of the window for the Dark Gravity Waves. How
many these are is known from heights and times alone, so a code beyond them is never looked at
(`target_eq_of_sameCourse`), and the error names the first of them that does not decode
(`target_eq_error_iff`).
-/

namespace HeaderRules.Gravity

/-! ## Heights and times -/

/-- Two sequences of blocks have the first heights and times in common. -/
structure SameCourse (blocks others : Nat → StoredBlock) (n : Nat) : Prop where
  height : ∀ k < n, (blocks k).height = (others k).height
  time : ∀ k < n, (blocks k).time = (others k).time

section

variable {blocks others : Nat → StoredBlock} {S T : History} {a b : StoredBlock} {m n : Nat}

theorem SameCourse.mono (h : SameCourse blocks others n) (hm : m ≤ n) :
    SameCourse blocks others m where
  height k hk := h.height k (hk.trans_le hm)
  time k hk := h.time k (hk.trans_le hm)

theorem SameCourse.readCount_eq (h : SameCourse (read S a) (read T b) n) :
    readCount S a n = readCount T b n :=
  firstUpTo_congr fun k hk => by rw [h.height k hk]

theorem SameCourse.lastTime_eq (h : SameCourse blocks others n) :
    lastTime blocks n = lastTime others n := by
  cases n with
  | zero => rfl
  | succ n => rw [lastTime, lastTime, h.time n n.lt_succ_self]

theorem SameCourse.elapsed_eq (h : SameCourse blocks others n) (hm : m < n) (newest : UInt32) :
    Kimoto.elapsed newest (blocks m) = Kimoto.elapsed newest (others m) := by
  unfold Kimoto.elapsed
  rw [h.height m hm, h.time m hm]

theorem SameCourse.intervalsAfter_eq {σ : Type} (h : SameCourse blocks others n)
    (add : σ → Int64 → σ) (initial : σ) :
    intervalsAfter add initial blocks n = intervalsAfter add initial others n := by
  induction n with
  | zero => rfl
  | succ n ih =>
    have hbefore : SameCourse blocks others n := h.mono n.le_succ
    rw [intervalsAfter, intervalsAfter, ih hbefore, hbefore.lastTime_eq, h.time n n.lt_succ_self]

end

namespace Algorithm

variable {w : Algorithm} {S T history : History} {a b prev : StoredBlock} {spacing : UInt32}
  {window : WindowBounds} {easiest : Target} {n : Nat}

/-- What an algorithm knows of some blocks beside their targets, it has from heights and times. -/
theorem stateAfter_eq_of_sameCourse {blocks others : Nat → StoredBlock}
    (h : SameCourse blocks others n) (newest : UInt32) (minimum : UInt64)
    (targets : Nat → Target) :
    w.stateAfter newest spacing minimum targets blocks n =
      w.stateAfter newest spacing minimum targets others n := by
  cases w with
  | kimoto =>
    cases n with
    | zero => rfl
    | succ n =>
      simp only [stateAfter, Kimoto.stateAfter]
      rw [h.elapsed_eq n.lt_succ_self]
  | wave =>
    simp only [stateAfter, Wave.stateAfter]
    rw [h.intervalsAfter_eq, h.lastTime_eq]
  | wave3 =>
    simp only [stateAfter, Wave3.stateAfter, Wave3.elapsedAfter]
    rw [h.intervalsAfter_eq, h.lastTime_eq]

/-- Heights and times decide where the Kimoto Gravity Well ends. -/
theorem kimoto_endCount_eq_of_sameCourse (h : SameCourse (read S a) (read T b) window.limit)
    (htime : a.time = b.time) :
    Kimoto.endCount a S spacing window = Kimoto.endCount b T spacing window := by
  unfold Kimoto.endCount
  rw [h.readCount_eq]
  refine firstUpTo_congr fun k hk => and_congr_right fun hpos => ?_
  have hlast : k - 1 < window.limit := by
    have := readCount_le T b window.limit
    omega
  unfold Kimoto.Stops
  rw [h.elapsed_eq hlast, htime]

/-- Heights and times decide how many blocks an algorithm reads, and how many of them it decodes. -/
theorem counts_eq_of_sameCourse (w : Algorithm) (spacing : UInt32)
    (h : SameCourse (read S a) (read T b) window.limit)
    (htime : a.time = b.time) :
    w.endCount a S spacing window = w.endCount b T spacing window ∧
      w.decodedCount a S spacing window = w.decodedCount b T spacing window := by
  cases w with
  | kimoto =>
    have hend : Kimoto.endCount a S spacing window = Kimoto.endCount b T spacing window :=
      kimoto_endCount_eq_of_sameCourse h htime
    exact ⟨hend, hend⟩
  | wave => exact ⟨h.readCount_eq, congrArg (min · window.min.toNat) h.readCount_eq⟩
  | wave3 => exact ⟨h.readCount_eq, congrArg (min · window.min.toNat) h.readCount_eq⟩

/-! ## Errors -/

/-- With enough history an algorithm fails exactly where a code that it decodes has no target, and
the error names the first one. -/
theorem target_eq_error_iff (hmax : window.max ≠ 0) (hlong : tooShort prev window = false)
    (e : VerificationError) :
    w.target prev history spacing window easiest = .error e ↔
      ∃ k < w.decodedCount prev history spacing window, (read history prev k).target? = none ∧
        (∀ j < k, (read history prev j).target? ≠ none) ∧
        e = .invalidStoredTarget (read history prev k).bits (read history prev k).height := by
  constructor
  · intro he
    rcases exists_targets_or_first_undecodable history prev
      (w.decodedCount prev history spacing window) with ⟨targets, hdecoded⟩ | hfirst
    · exact nomatch he.symm.trans (target_eq_ok hmax hlong hdecoded)
    · obtain ⟨k, hk, hnone, hbefore⟩ := hfirst
      exact ⟨k, hk, hnone, hbefore,
        Except.error.inj (he.symm.trans (target_eq_error hmax hlong hk hnone hbefore))⟩
  · rintro ⟨k, hk, hnone, hbefore, rfl⟩
    exact target_eq_error hmax hlong hk hnone hbefore

/-- A missing parent is no failure. -/
theorem target_ne_missingAncestor (hmax : window.max ≠ 0) (hash : BlockHash) (height : UInt32) :
    w.target prev history spacing window easiest ≠ .error (.missingAncestor hash height) := by
  intro he
  cases hshort : tooShort prev window with
  | true => exact nomatch he.symm.trans (target_of_tooShort hshort)
  | false =>
    obtain ⟨k, -, -, -, hkind⟩ := (target_eq_error_iff hmax hshort _).1 he
    exact nomatch hkind

/-- Two walks with the same heights and times come to the same result if the codes agree that are
decoded on the way. -/
theorem target_eq_of_sameCourse (hmax : window.max ≠ 0)
    (h : SameCourse (read S a) (read T b) window.limit)
    (hbits : ∀ k < w.decodedCount a S spacing window, (read S a k).bits = (read T b k).bits) :
    w.target a S spacing window easiest = w.target b T spacing window easiest := by
  have hlimit : 0 < window.limit := by
    rw [WindowBounds.limit_eq hmax]
    exact WindowBounds.toNat_max_pos hmax
  have hheight : a.height = b.height := h.height 0 hlimit
  have htime : a.time = b.time := h.time 0 hlimit
  obtain ⟨hend, hcount⟩ := w.counts_eq_of_sameCourse spacing h htime
  have htarget : ∀ k < w.decodedCount a S spacing window,
      (read S a k).target? = (read T b k).target? := by
    intro k hk
    rw [StoredBlock.target?, hbits k hk, StoredBlock.target?]
  have hshort_eq : tooShort a window = tooShort b window := by
    rw [tooShort, hheight, tooShort]
  cases hshort : tooShort a window with
  | true => rw [target_of_tooShort hshort, target_of_tooShort (hshort_eq.symm.trans hshort)]
  | false =>
    have hshort' : tooShort b window = false := hshort_eq.symm.trans hshort
    rcases exists_targets_or_first_undecodable S a (w.decodedCount a S spacing window) with
      ⟨targets, hdecoded⟩ | ⟨k, hk, hnone, hbefore⟩
    · have hdecoded' : ∀ k < w.decodedCount b T spacing window,
          (read T b k).target? = some (targets k) := by
        intro k hk
        rw [← hcount] at hk
        rw [← htarget k hk, hdecoded k hk]
      have hle : w.endCount a S spacing window ≤ window.limit :=
        (w.endCount_le a S spacing window).trans (readCount_le S a window.limit)
      rw [target_eq_ok hmax hshort hdecoded, target_eq_ok hmax hshort' hdecoded', ← hend, ← htime,
        stateAfter_eq_of_sameCourse (h.mono hle)]
    · have hbefore' : ∀ j < k, (read T b j).target? ≠ none := by
        intro j hj
        rw [← htarget j (hj.trans hk)]
        exact hbefore j hj
      have hk_limit : k < window.limit :=
        (lt_decodedCount_iff.1 hk).1.trans_le
          ((w.endCount_le a S spacing window).trans (readCount_le S a window.limit))
      rw [target_eq_error hmax hshort hk hnone hbefore,
        target_eq_error hmax hshort' (hcount ▸ hk) (htarget k hk ▸ hnone) hbefore', hbits k hk,
        h.height k hk_limit]

/-- A block with a negative code, in the place of the lower one of two blocks above a gap. -/
def spoiledBlock : StoredBlock where
  hash := numberedHash 1
  header := { bareHeader 1400000000 ⟨0x1c80ffff⟩ with prevBlockHash := numberedHash 0 }
  height := 70000

/-- The history that knows this block only. -/
def spoiledHistory : History :=
  fun hash => if hash = numberedHash 1 then some spoiledBlock else none

end Algorithm

end HeaderRules.Gravity
