import HeaderRules.Proofs.ExactRatio
import HeaderRules.Proofs.RunningAverage
import Mathlib.Data.Nat.Find

/-!
# The run of a gravity-well algorithm

A walk goes through its states one read after the other. How many blocks it reads is known before
any code is decoded: height zero, the end of the window and the visitor's own stop depend on heights
and times only. So every algorithm has a state after `k` reads that is a function of the blocks read
and of their targets (`Algorithm.stateAfter`) and an end (`Algorithm.endCount`), and a walk either
comes to the state at its end or fails on the first of the codes that it decodes on the way and that
does not decode (`Algorithm.target_eq_ok`, `Algorithm.target_eq_error`).
-/

namespace HeaderRules.Gravity

open Outcome

/-! ## Searches with a limit -/

section

variable {p q : Nat → Prop} [DecidablePred p] [DecidablePred q] {limit k n : Nat}

/-- The least number at which something holds, or the limit if that comes first. -/
def firstUpTo (limit : Nat) (p : Nat → Prop) [DecidablePred p] : Nat :=
  Nat.find (⟨limit, .inl rfl⟩ : ∃ k, k = limit ∨ p k)

theorem firstUpTo_le (limit : Nat) (p : Nat → Prop) [DecidablePred p] :
    firstUpTo limit p ≤ limit := Nat.find_min' _ (.inl rfl)

theorem not_of_lt_firstUpTo (h : k < firstUpTo limit p) : ¬p k := fun hp =>
  Nat.find_min _ h (.inr hp)

theorem firstUpTo_eq_limit_or (limit : Nat) (p : Nat → Prop) [DecidablePred p] :
    firstUpTo limit p = limit ∨ p (firstUpTo limit p) :=
  Nat.find_spec (⟨limit, .inl rfl⟩ : ∃ k, k = limit ∨ p k)

theorem firstUpTo_eq (hn : n = limit ∨ p n) (hle : n ≤ limit) (hbefore : ∀ k < n, ¬p k) :
    firstUpTo limit p = n := by
  refine (Nat.find_eq_iff _).2 ⟨hn, fun k hk => ?_⟩
  rintro (hlimit | hp)
  · omega
  · exact hbefore k hk hp

/-- A search below a limit depends on what holds below the limit. -/
theorem firstUpTo_congr (h : ∀ k < limit, p k ↔ q k) : firstUpTo limit p = firstUpTo limit q := by
  have hle := firstUpTo_le limit q
  refine firstUpTo_eq ?_ hle fun k hk => ?_
  · rcases firstUpTo_eq_limit_or limit q with hlimit | hq
    · exact .inl hlimit
    · rcases hle.eq_or_lt with hlimit | hlt
      · exact .inl hlimit
      · exact .inr ((h _ hlt).2 hq)
  · rw [h k (hk.trans_le hle)]
    exact not_of_lt_firstUpTo hk

end

/-! ## How many blocks are read -/

/-- How many blocks a walk reads that its visitor never stops: those before the first one at height
zero, and no more than the limit. -/
def readCount (history : History) (prev : StoredBlock) (limit : Nat) : Nat :=
  firstUpTo limit fun k => (read history prev k).height = 0

section

variable {S T history : History} {a b prev : StoredBlock} {limit k n : Nat}

theorem readCount_le (history : History) (prev : StoredBlock) (limit : Nat) :
    readCount history prev limit ≤ limit := firstUpTo_le limit _

theorem height_ne_zero_of_lt_readCount (h : k < readCount history prev limit) :
    (read history prev k).height ≠ 0 := not_of_lt_firstUpTo h

theorem readCount_pos (hlimit : limit ≠ 0) (hprev : prev.height ≠ 0) :
    0 < readCount history prev limit := by
  apply Nat.pos_of_ne_zero
  intro hzero
  rcases firstUpTo_eq_limit_or limit fun k => (read history prev k).height = 0 with hall | hbottom
  · exact hlimit (hall.symm.trans hzero)
  · rw [← readCount, hzero] at hbottom
    exact hprev hbottom

/-- Where a parent is missing above height zero, a walk reads up to its limit. -/
theorem readCount_of_gap {gap : Nat} (hgap : history (read history prev gap).prevBlockHash = none)
    (habove : ∀ k ≤ gap, (read history prev k).height ≠ 0) (limit : Nat) :
    readCount history prev limit = limit := by
  refine firstUpTo_eq (.inl rfl) le_rfl fun k _ => ?_
  rw [read_eq_of_gap hgap]
  exact habove _ (Nat.min_le_right _ _)

theorem readCount_of_missing (hmissing : history prev.prevBlockHash = none)
    (hheight : prev.height ≠ 0) (limit : Nat) : readCount history prev limit = limit := by
  have hfirst : history (read history prev 0).prevBlockHash = none := hmissing
  refine readCount_of_gap hfirst (fun k _ => ?_) limit
  rw [read_of_missing hmissing]
  exact hheight

/-! ## Ends of a walk -/

variable {σ : Type} {visit : σ → StoredBlock → Except VerificationError (Visit σ)} {f : Nat → σ}

/-- A walk that goes through the states `f` is, after `n` reads, the rest of the walk from there. -/
theorem walk_eq_walk_of_next (hn : n ≤ readCount history prev limit)
    (hnext : ∀ k < n, visit (f k) (read history prev k) = .ok (.next (f (k + 1)))) :
    walk visit history limit prev (f 0) =
      walk visit history (limit - n) (read history prev n) (f n) := by
  induction n with
  | zero => rfl
  | succ n ih =>
    have hlimit := readCount_le history prev limit
    obtain ⟨rest, hrest⟩ : ∃ rest, limit - n = rest + 1 := ⟨limit - n - 1, by omega⟩
    have hrest' : limit - (n + 1) = rest := by omega
    rw [ih (by omega) fun k hk => hnext k (by omega), hrest, hrest', walk,
      if_neg (height_ne_zero_of_lt_readCount hn), hnext n n.lt_succ_self, read_succ']

/-- Where nothing stops it, a walk ends in the state after all its reads. -/
theorem walk_eq_ok_of_next (hnext : ∀ k < readCount history prev limit,
      visit (f k) (read history prev k) = .ok (.next (f (k + 1)))) :
    walk visit history limit prev (f 0) = .ok (f (readCount history prev limit)) := by
  rw [walk_eq_walk_of_next le_rfl hnext]
  rcases firstUpTo_eq_limit_or limit fun k => (read history prev k).height = 0 with hall | hzero
  · rw [readCount, hall, Nat.sub_self, walk]
  · rw [← readCount] at hzero
    cases limit - readCount history prev limit with
    | zero => rfl
    | succ rest => rw [walk, if_pos hzero]

/-- A walk ends where its visitor stops it, or fails where its visitor does. -/
theorem walk_eq_of_visit (hn : n < readCount history prev limit)
    (hnext : ∀ k < n, visit (f k) (read history prev k) = .ok (.next (f (k + 1)))) :
    (∀ s, visit (f n) (read history prev n) = .ok (.stop s) →
        walk visit history limit prev (f 0) = .ok s) ∧
      ∀ e, visit (f n) (read history prev n) = .error e →
        walk visit history limit prev (f 0) = .error e := by
  have hlimit := readCount_le history prev limit
  obtain ⟨rest, hrest⟩ : ∃ rest, limit - n = rest + 1 := ⟨limit - n - 1, by omega⟩
  rw [walk_eq_walk_of_next hn.le hnext, hrest, walk, if_neg (height_ne_zero_of_lt_readCount hn)]
  constructor
  · intro s hs
    rw [hs]
  · intro e he
    rw [he]

/-- Beyond the blocks above height zero the limit of a walk has no effect. -/
theorem walk_eq_of_end {state : σ} (hn : n ≤ limit)
    (hend : n = limit ∨ (read history prev n).height = 0) :
    walk visit history limit prev state = walk visit history n prev state := by
  induction n generalizing limit prev state with
  | zero =>
    cases limit with
    | zero => rfl
    | succ limit =>
      have hzero : prev.height = 0 := hend.resolve_left nofun
      rw [walk, walk, if_pos hzero]
  | succ n ih =>
    obtain ⟨limit, rfl⟩ : ∃ rest, limit = rest + 1 := ⟨limit - 1, by omega⟩
    rw [walk, walk]
    split_ifs
    · rfl
    · rcases visit state prev with e | (next | last)
      · rfl
      · refine ih (by omega) (hend.imp (by omega) fun hzero => ?_)
        rw [← read_succ]
        exact hzero
      · rfl

end

/-! ## States after some reads -/

/-- The seconds that `n` blocks should take: a 64-bit product, in which the count of the blocks
stays at 2⁶³ - 1 from there on. -/
def expectedSeconds (spacing : UInt32) (n : Nat) : Int64 :=
  seconds spacing * signedCount (.ofNat n)

/-- The product is exact as long as it fits; a count of 2³¹ + 1 may be too much for it
(`Kimoto.kimoto_keeps_average_of_wrapped_product`). -/
theorem toInt_expectedSeconds {spacing : UInt32} {n : Nat} (h : n * spacing.toNat < 2 ^ 63) :
    (expectedSeconds spacing n).toInt = n * spacing.toNat := by
  have hseconds := toInt_seconds spacing
  have hexact : ((n * spacing.toNat : Nat) : Int).bmod (2 ^ 64) = (n * spacing.toNat : Nat) :=
    Int.bmod_eq_of_le (by omega) (by omega)
  unfold expectedSeconds
  rw [Int64.toInt_mul, hseconds]
  rcases Nat.eq_zero_or_pos spacing.toNat with hzero | hpos
  · rw [hzero]
    simp
  · have hn : n < 2 ^ 63 := (Nat.le_mul_of_pos_right n hpos).trans_lt h
    have hcount : (UInt64.ofNat n).toNat = n :=
      UInt64.toNat_ofNat_of_lt (show n < 2 ^ 64 by omega)
    unfold signedCount
    rw [hcount, toInt_clampInt64_of_mem (by omega) (by omega), Int.mul_comm, ← Int.natCast_mul]
    exact hexact

/-- The time of the last of `k` blocks, and zero before the first. -/
def lastTime (blocks : Nat → StoredBlock) : Nat → Int64
  | 0 => 0
  | k + 1 => seconds (blocks k).time

/-- The intervals between the first `k` blocks, taken in by `add` one after the other. One counts
only where the block before it has a positive time. -/
def intervalsAfter {σ : Type} (add : σ → Int64 → σ) (initial : σ) (blocks : Nat → StoredBlock) :
    Nat → σ
  | 0 => initial
  | k + 1 =>
    if lastTime blocks k > 0 then
      add (intervalsAfter add initial blocks k) (lastTime blocks k - seconds (blocks k).time)
    else intervalsAfter add initial blocks k

namespace Kimoto

/-- The seconds from a block to the time `newest`, at least the floor of its height. -/
def elapsed (newest : UInt32) (b : StoredBlock) : Int64 :=
  max (seconds newest - seconds b.time) (elapsedFloor b.height)

theorem toInt_elapsed (newest : UInt32) (b : StoredBlock) :
    (elapsed newest b).toInt =
      max ((newest.toNat : Int) - b.time.toNat) (if 646120 < b.height.toNat then 5 else 0) := by
  have hnewest := toInt_seconds newest
  have htime := toInt_seconds b.time
  have := newest.toNat_lt
  have := b.time.toNat_lt
  have hfloor : (elapsedFloor b.height).toInt = if 646120 < b.height.toNat then 5 else 0 := by
    have hheight : b.height > elapsedFloorHeight ↔ 646120 < b.height.toNat := UInt32.lt_iff_toNat_lt
    unfold elapsedFloor
    by_cases h : b.height > elapsedFloorHeight
    · rw [if_pos h, if_pos (hheight.1 h)]
      rfl
    · rw [if_neg h, if_neg (mt hheight.2 h)]
      rfl
  unfold elapsed
  rw [toInt_max, toInt_sub_of_mem (by omega) (by omega), hnewest, htime, hfloor]

/-- What is known after some blocks with the given targets. -/
def stateAfter (newest spacing : UInt32) (targets : Nat → Target) (blocks : Nat → StoredBlock) :
    Nat → State
  | 0 => .initial
  | k + 1 => ⟨.ofNat (k + 1), averageOf incrementalAverage targets (k + 1),
      elapsed newest (blocks k), expectedSeconds spacing (k + 1)⟩

/-- Whether the walk may end after `k` blocks: enough of them are read, and the ratio of expected
to elapsed seconds is outside of the event horizon. -/
def Stops (newest spacing : UInt32) (minimum : UInt64) (blocks : Nat → StoredBlock) (k : Nat) :
    Prop :=
  minimum.toNat ≤ k ∧
    leavesHorizon (.ofNat k) (elapsed newest (blocks (k - 1))) (expectedSeconds spacing k) = true

instance (newest spacing : UInt32) (minimum : UInt64) (blocks : Nat → StoredBlock) (k : Nat) :
    Decidable (Stops newest spacing minimum blocks k) := inferInstanceAs (Decidable (_ ∧ _))

/-- How many blocks the walk reads: the least number after which it may end, or all that there
are. -/
def endCount (prev : StoredBlock) (history : History) (spacing : UInt32) (window : WindowBounds) :
    Nat :=
  firstUpTo (readCount history prev window.limit) fun k =>
    0 < k ∧ Stops prev.time spacing window.min (read history prev) k

end Kimoto

namespace Wave

/-- What is known after some blocks with the given targets. -/
def stateAfter (minimum : UInt64) (targets : Nat → Target) (blocks : Nat → StoredBlock) (k : Nat) :
    State :=
  ⟨.ofNat k, averageOf incrementalAverage targets (min k minimum.toNat),
    intervalsAfter (·.add (signedCount minimum)) .none blocks k, lastTime blocks k⟩

end Wave

namespace Wave3

/-- The sum of the intervals between the first `k` blocks. -/
def elapsedAfter (blocks : Nat → StoredBlock) : Nat → Int64 := intervalsAfter (· + ·) 0 blocks

/-- What is known after some blocks with the given targets. -/
def stateAfter (minimum : UInt64) (targets : Nat → Target) (blocks : Nat → StoredBlock) (k : Nat) :
    State :=
  ⟨.ofNat k, averageOf weightedAverage targets (min k minimum.toNat), elapsedAfter blocks k,
    lastTime blocks k⟩

end Wave3

/-! ## One visit -/

section

variable {targets : Nat → Target} {blocks : Nat → StoredBlock} {k : Nat}

/-- A count of blocks does not wrap before the end of a window. -/
theorem toNat_count (hk : k < 2 ^ 64) : (UInt64.ofNat k).toNat = k := UInt64.toNat_ofNat_of_lt hk

theorem count_add_one (k : Nat) : UInt64.ofNat k + 1 = .ofNat (k + 1) :=
  (UInt64.ofNat_add k 1).symm

theorem count_eq_one_iff (hk : k + 1 < 2 ^ 64) : UInt64.ofNat (k + 1) = 1 ↔ k = 0 := by
  rw [← UInt64.toNat_inj, toNat_count hk, UInt64.toNat_one]
  omega

theorem count_le_iff (hk : k + 1 < 2 ^ 64) {minimum : UInt64} :
    UInt64.ofNat (k + 1) ≤ minimum ↔ k < minimum.toNat := by
  rw [UInt64.le_iff_toNat_le, toNat_count hk, Nat.succ_le_iff]

/-- Taking in one more target, where the first `m` are averaged. -/
theorem averageOf_min_succ (combine : Target → Target → UInt64 → Target) (targets : Nat → Target)
    (k m : Nat) :
    averageOf combine targets (min (k + 1) m) =
      if k < m then
        if k = 0 then targets k
        else combine (averageOf combine targets (min k m)) (targets k) (.ofNat (k + 1))
      else averageOf combine targets (min k m) := by
  split_ifs with hm hfirst
  · subst hfirst
    rw [Nat.min_eq_left hm]
    rfl
  · rw [Nat.min_eq_left hm, Nat.min_eq_left hm.le, averageOf_succ, if_neg hfirst]
  · rw [Nat.min_eq_right (by omega), Nat.min_eq_right (by omega)]

theorem Kimoto.visit_stateAfter (hk : k + 1 < 2 ^ 64) (newest spacing : UInt32) (minimum : UInt64)
    (hdecoded : (blocks k).target? = some (targets k)) :
    visit newest spacing minimum (stateAfter newest spacing targets blocks k) (blocks k) =
      .ok (if Stops newest spacing minimum blocks (k + 1)
        then .stop (stateAfter newest spacing targets blocks (k + 1))
        else .next (stateAfter newest spacing targets blocks (k + 1))) := by
  have hmass : (stateAfter newest spacing targets blocks k).mass = .ofNat k := by
    cases k <;> rfl
  have haverage : (stateAfter newest spacing targets blocks k).average =
      averageOf incrementalAverage targets k := by
    cases k <;> rfl
  have henough : UInt64.ofNat (k + 1) ≥ minimum ↔ minimum.toNat ≤ k + 1 := by
    rw [ge_iff_le, UInt64.le_iff_toNat_le, toNat_count hk]
  have htaken : (if k = 0 then targets k
      else incrementalAverage (averageOf incrementalAverage targets k) (targets k)
        (.ofNat (k + 1))) = averageOf incrementalAverage targets (k + 1) := by
    rw [averageOf_succ]
    split_ifs with hfirst
    · rw [hfirst]
    · rfl
  unfold visit
  rw [StoredBlock.decodedTarget_eq_ok_iff.2 hdecoded, hmass, haverage, count_add_one]
  simp only [count_eq_one_iff hk, htaken, henough, Bool.and_eq_true, decide_eq_true_eq]
  rfl

/-- Where the target of one more block decodes if it is to be averaged, a wave goes on with the
average that takes it in. -/
theorem averaged_eq {α : Type} {combine : Target → Target → UInt64 → Target} {minimum : UInt64}
    (hk : k + 1 < 2 ^ 64)
    (hdecoded : k < minimum.toNat → (blocks k).target? = some (targets k))
    (next : Target → Except VerificationError α) :
    (if UInt64.ofNat (k + 1) ≤ minimum then do
        let target ← (blocks k).decodedTarget
        let average ← pure (if UInt64.ofNat (k + 1) = 1 then target
          else combine (averageOf combine targets (min k minimum.toNat)) target (.ofNat (k + 1)))
        next average
      else do
        let average ← pure (averageOf combine targets (min k minimum.toNat))
        next average) = next (averageOf combine targets (min (k + 1) minimum.toNat)) := by
  rw [averageOf_min_succ]
  simp only [count_le_iff hk, count_eq_one_iff hk]
  by_cases hm : k < minimum.toNat
  · rw [if_pos hm, if_pos hm, StoredBlock.decodedTarget_eq_ok_iff.2 (hdecoded hm)]
    rfl
  · rw [if_neg hm, if_neg hm]
    rfl

/-- A visit of a wave decodes a target if it is to be averaged, and goes on. -/
theorem Wave.visit_stateAfter (hk : k + 1 < 2 ^ 64) (minimum : UInt64)
    (hdecoded : k < minimum.toNat → (blocks k).target? = some (targets k)) :
    visit minimum (stateAfter minimum targets blocks k) (blocks k) =
      .ok (.next (stateAfter minimum targets blocks (k + 1))) := by
  unfold visit stateAfter
  simp only [count_add_one]
  exact averaged_eq hk hdecoded _

theorem Wave3.visit_stateAfter (hk : k + 1 < 2 ^ 64) (minimum : UInt64)
    (hdecoded : k < minimum.toNat → (blocks k).target? = some (targets k)) :
    visit minimum (stateAfter minimum targets blocks k) (blocks k) =
      .ok (.next (stateAfter minimum targets blocks (k + 1))) := by
  unfold visit stateAfter
  simp only [count_add_one]
  exact averaged_eq hk hdecoded _

end

/-! ## The run of an algorithm -/

namespace Algorithm

/-- What an algorithm knows after some blocks with the given targets. -/
def stateAfter (w : Algorithm) (newest spacing : UInt32) (minimum : UInt64)
    (targets : Nat → Target) (blocks : Nat → StoredBlock) : Nat → w.State :=
  match w with
  | kimoto => Kimoto.stateAfter newest spacing targets blocks
  | wave => Wave.stateAfter minimum targets blocks
  | wave3 => Wave3.stateAfter minimum targets blocks

/-- Whether an algorithm may end after `k` blocks before its window does. -/
def Stops (w : Algorithm) (newest spacing : UInt32) (minimum : UInt64)
    (blocks : Nat → StoredBlock) (k : Nat) : Prop :=
  match w with
  | kimoto => Kimoto.Stops newest spacing minimum blocks k
  | wave | wave3 => False

/-- Whether an algorithm decodes the target of the block that it reads after `k` others. -/
def Decodes (w : Algorithm) (minimum : UInt64) (k : Nat) : Prop :=
  match w with
  | kimoto => True
  | wave | wave3 => k < minimum.toNat

/-- How many blocks an algorithm reads. -/
def endCount (w : Algorithm) (prev : StoredBlock) (history : History) (spacing : UInt32)
    (window : WindowBounds) : Nat :=
  match w with
  | kimoto => Kimoto.endCount prev history spacing window
  | wave | wave3 => readCount history prev window.limit

/-- Of how many of the blocks that it reads an algorithm decodes the targets. -/
def decodedCount (w : Algorithm) (prev : StoredBlock) (history : History) (spacing : UInt32)
    (window : WindowBounds) : Nat :=
  match w with
  | kimoto => Kimoto.endCount prev history spacing window
  | wave | wave3 => min (readCount history prev window.limit) window.min.toNat

variable {w : Algorithm} {prev : StoredBlock} {history : History} {spacing : UInt32}
  {window : WindowBounds} {easiest : Target} {targets : Nat → Target} {k : Nat}

theorem lt_decodedCount_iff :
    k < w.decodedCount prev history spacing window ↔
      k < w.endCount prev history spacing window ∧ w.Decodes window.min k := by
  cases w with
  | kimoto => exact (and_iff_left trivial).symm
  | wave => exact Nat.lt_min
  | wave3 => exact Nat.lt_min

theorem endCount_le (w : Algorithm) (prev : StoredBlock) (history : History) (spacing : UInt32)
    (window : WindowBounds) :
    w.endCount prev history spacing window ≤ readCount history prev window.limit := by
  cases w with
  | kimoto => exact firstUpTo_le _ _
  | wave => exact le_rfl
  | wave3 => exact le_rfl

theorem not_stops_of_lt_endCount (hk : 0 < k) (h : k < w.endCount prev history spacing window) :
    ¬w.Stops prev.time spacing window.min (read history prev) k := by
  cases w with
  | kimoto => exact fun hstops => not_of_lt_firstUpTo h ⟨hk, hstops⟩
  | wave => exact not_false
  | wave3 => exact not_false

/-- An algorithm reads all blocks of its window above height zero, or stops after one of them. -/
theorem endCount_eq_readCount_or (w : Algorithm) (prev : StoredBlock) (history : History)
    (spacing : UInt32) (window : WindowBounds) :
    w.endCount prev history spacing window = readCount history prev window.limit ∨
      0 < w.endCount prev history spacing window ∧
        w.Stops prev.time spacing window.min (read history prev)
          (w.endCount prev history spacing window) := by
  cases w with
  | kimoto => exact firstUpTo_eq_limit_or _ _
  | wave => exact .inl rfl
  | wave3 => exact .inl rfl

/-- A visit after `k` others makes the next state, and stops there if the algorithm may end. -/
theorem visit_stateAfter {newest : UInt32} {minimum : UInt64} {blocks : Nat → StoredBlock}
    (hk : k + 1 < 2 ^ 64)
    (hdecoded : w.Decodes minimum k → (blocks k).target? = some (targets k)) :
    (w.Stops newest spacing minimum blocks (k + 1) →
        w.visit newest spacing minimum (w.stateAfter newest spacing minimum targets blocks k)
          (blocks k) = .ok (.stop (w.stateAfter newest spacing minimum targets blocks (k + 1)))) ∧
      (¬w.Stops newest spacing minimum blocks (k + 1) →
        w.visit newest spacing minimum (w.stateAfter newest spacing minimum targets blocks k)
          (blocks k) =
            .ok (.next (w.stateAfter newest spacing minimum targets blocks (k + 1)))) := by
  cases w with
  | kimoto =>
    have hvisit := Kimoto.visit_stateAfter hk newest spacing minimum (hdecoded trivial)
    constructor
    · intro (hstops : Kimoto.Stops newest spacing minimum blocks (k + 1))
      exact hvisit.trans (congrArg Except.ok (if_pos hstops))
    · intro (hstops : ¬Kimoto.Stops newest spacing minimum blocks (k + 1))
      exact hvisit.trans (congrArg Except.ok (if_neg hstops))
  | wave => exact ⟨False.elim, fun _ => Wave.visit_stateAfter hk minimum hdecoded⟩
  | wave3 => exact ⟨False.elim, fun _ => Wave3.visit_stateAfter hk minimum hdecoded⟩

/-- A visit fails on a target that is to be decoded and does not decode. -/
theorem visit_eq_error {newest : UInt32} {minimum : UInt64} {blocks : Nat → StoredBlock}
    (hk : k + 1 < 2 ^ 64) (hdecodes : w.Decodes minimum k) (hnone : (blocks k).target? = none) :
    w.visit newest spacing minimum (w.stateAfter newest spacing minimum targets blocks k)
      (blocks k) = .error (.invalidStoredTarget (blocks k).bits (blocks k).height) := by
  have hfails : (blocks k).decodedTarget =
      .error (.invalidStoredTarget (blocks k).bits (blocks k).height) :=
    StoredBlock.decodedTarget_eq_error_iff.2 ⟨hnone, rfl⟩
  cases w with
  | kimoto =>
    simp only [visit, Kimoto.visit, hfails]
    rfl
  | wave =>
    have hwindow : UInt64.ofNat (k + 1) ≤ minimum := (count_le_iff hk).2 hdecodes
    simp only [visit, Wave.visit, stateAfter, Wave.stateAfter, count_add_one, if_pos hwindow,
      hfails]
    rfl
  | wave3 =>
    have hwindow : UInt64.ofNat (k + 1) ≤ minimum := (count_le_iff hk).2 hdecodes
    simp only [visit, Wave3.visit, stateAfter, Wave3.stateAfter, count_add_one, if_pos hwindow,
      hfails]
    rfl

theorem stateAfter_zero (w : Algorithm) (newest spacing : UInt32) (minimum : UInt64)
    (targets : Nat → Target) (blocks : Nat → StoredBlock) :
    w.stateAfter newest spacing minimum targets blocks 0 = w.initial := by
  cases w with
  | kimoto => rfl
  | wave => simp only [stateAfter, Wave.stateAfter, Nat.zero_min]; rfl
  | wave3 => simp only [stateAfter, Wave3.stateAfter, Nat.zero_min]; rfl

section

variable (hmax : window.max ≠ 0)

include hmax

/-- Over a window with a maximum, counts of blocks do not wrap. -/
theorem count_lt_of_lt_endCount (hk : k < w.endCount prev history spacing window) :
    k + 1 < 2 ^ 64 := by
  have hend := w.endCount_le prev history spacing window
  have hread := readCount_le history prev window.limit
  have hword : window.max.toNat < 2 ^ 64 := window.max.toNat_lt
  rw [WindowBounds.limit_eq hmax] at hend hread
  omega

/-- Before its end, an algorithm goes on from each state to the next. -/
theorem visit_eq_next
    (hdecoded : w.Decodes window.min k → (read history prev k).target? = some (targets k))
    (hk : k + 1 < w.endCount prev history spacing window) :
    w.visit prev.time spacing window.min
        (w.stateAfter prev.time spacing window.min targets (read history prev) k)
        (read history prev k) =
      .ok (.next (w.stateAfter prev.time spacing window.min targets (read history prev) (k + 1))) :=
  (visit_stateAfter (count_lt_of_lt_endCount hmax (Nat.lt_of_succ_lt hk)) hdecoded).2
    (not_stops_of_lt_endCount k.succ_pos hk)

/-- Where all codes decode that an algorithm decodes on its way, its walk comes to the state at its
end. -/
theorem walk_eq_ok (hdecoded : ∀ k < w.decodedCount prev history spacing window,
      (read history prev k).target? = some (targets k)) :
    walk (w.visit prev.time spacing window.min) history window.limit prev w.initial =
      .ok (w.stateAfter prev.time spacing window.min targets (read history prev)
        (w.endCount prev history spacing window)) := by
  have htarget : ∀ k < w.endCount prev history spacing window, w.Decodes window.min k →
      (read history prev k).target? = some (targets k) :=
    fun k hk hdecodes => hdecoded k (lt_decodedCount_iff.2 ⟨hk, hdecodes⟩)
  have hnext : ∀ k, k + 1 < w.endCount prev history spacing window → _ :=
    fun k hk => visit_eq_next (w := w) hmax (htarget k (Nat.lt_of_succ_lt hk)) hk
  have hend := w.endCount_le prev history spacing window
  rw [← w.stateAfter_zero prev.time spacing window.min targets (read history prev)]
  by_cases hstops : 0 < w.endCount prev history spacing window ∧
    w.Stops prev.time spacing window.min (read history prev)
      (w.endCount prev history spacing window)
  · obtain ⟨last, hlast⟩ : ∃ last, w.endCount prev history spacing window = last + 1 :=
      Nat.exists_eq_succ_of_ne_zero hstops.1.ne'
    have hlt : last < w.endCount prev history spacing window := by omega
    refine (walk_eq_of_visit (hlt.trans_le hend) fun k hk => hnext k (by omega)).1 _ ?_
    rw [hlast]
    exact (visit_stateAfter (count_lt_of_lt_endCount hmax hlt) (htarget last hlt)).1
      (hlast ▸ hstops.2)
  · have hall : w.endCount prev history spacing window = readCount history prev window.limit :=
      (w.endCount_eq_readCount_or prev history spacing window).resolve_right hstops
    rw [hall]
    refine walk_eq_ok_of_next fun k hk => ?_
    rw [← hall] at hk
    refine (visit_stateAfter (count_lt_of_lt_endCount hmax hk) (htarget k hk)).2 fun hk_stops => ?_
    rcases (Nat.succ_le_of_lt hk).eq_or_lt with hk_last | hk_before
    · exact hstops ⟨Nat.zero_lt_of_lt hk, hk_last ▸ hk_stops⟩
    · exact not_stops_of_lt_endCount k.succ_pos hk_before hk_stops

/-- A walk fails on the first of the codes that it decodes on its way and that does not decode. -/
theorem walk_eq_error (hk : k < w.decodedCount prev history spacing window)
    (hnone : (read history prev k).target? = none)
    (hbefore : ∀ j < k, (read history prev j).target? ≠ none) :
    walk (w.visit prev.time spacing window.min) history window.limit prev w.initial =
      .error (.invalidStoredTarget (read history prev k).bits (read history prev k).height) := by
  obtain ⟨hk, hdecodes⟩ := lt_decodedCount_iff.1 hk
  have hend := w.endCount_le prev history spacing window
  have htarget : ∀ j < k,
      (read history prev j).target? = some ((read history prev j).target?.getD .zero) :=
    fun j hj => (Option.getD_of_ne_none (hbefore j hj) _).symm
  rw [← w.stateAfter_zero prev.time spacing window.min
    (fun j => (read history prev j).target?.getD .zero) (read history prev)]
  refine (walk_eq_of_visit (hk.trans_le hend) fun j hj => ?_).2 _ ?_
  · exact visit_eq_next hmax (fun _ => htarget j hj) (by omega)
  · exact visit_eq_error (count_lt_of_lt_endCount hmax hk) hdecodes hnone

end

/-- Some reads have targets, or there is a first one that has none. -/
theorem exists_targets_or_first_undecodable (history : History) (prev : StoredBlock) (n : Nat) :
    (∃ targets : Nat → Target, ∀ k < n, (read history prev k).target? = some (targets k)) ∨
      ∃ k < n, (read history prev k).target? = none ∧
        ∀ j < k, (read history prev j).target? ≠ none := by
  by_cases hall : ∀ k < n, (read history prev k).target? ≠ none
  · exact .inl ⟨fun k => (read history prev k).target?.getD .zero,
      fun k hk => (Option.getD_of_ne_none (hall k hk) _).symm⟩
  · push Not at hall
    have hfirst := Nat.find_spec hall
    exact .inr ⟨Nat.find hall, hfirst.1, hfirst.2,
      fun j hj hnone => Nat.find_min hall hj ⟨hj.trans hfirst.1, hnone⟩⟩

/-! ## The target at the end of a run -/

theorem tooShort_iff (prev : StoredBlock) (window : WindowBounds) :
    tooShort prev window = true ↔ prev.height = 0 ∨ prev.height.toNat < window.min.toNat := by
  unfold tooShort
  rw [Bool.or_eq_true, beq_iff_eq, decide_eq_true_eq, UInt64.lt_iff_toNat_lt,
    UInt32.toNat_toUInt64]

theorem tooShort_eq_false (hheight : prev.height ≠ 0)
    (hmin : window.min.toNat ≤ prev.height.toNat) : tooShort prev window = false := by
  rw [← Bool.not_eq_true, tooShort_iff]
  rintro (hzero | hlt)
  · exact hheight hzero
  · omega

/-- With too little history the target is the easiest one. -/
theorem target_of_tooShort (hshort : tooShort prev window = true) :
    w.target prev history spacing window easiest = .ok easiest := by
  rw [target_eq, hshort]
  rfl

theorem target_eq_ok (hmax : window.max ≠ 0) (hlong : tooShort prev window = false)
    (hdecoded : ∀ k < w.decodedCount prev history spacing window,
      (read history prev k).target? = some (targets k)) :
    w.target prev history spacing window easiest =
      .ok (w.result spacing (w.stateAfter prev.time spacing window.min targets (read history prev)
        (w.endCount prev history spacing window))) := by
  rw [target_eq, hlong, walk_eq_ok hmax hdecoded]
  rfl

theorem target_eq_error (hmax : window.max ≠ 0) (hlong : tooShort prev window = false)
    (hk : k < w.decodedCount prev history spacing window)
    (hnone : (read history prev k).target? = none)
    (hbefore : ∀ j < k, (read history prev j).target? ≠ none) :
    w.target prev history spacing window easiest =
      .error (.invalidStoredTarget (read history prev k).bits (read history prev k).height) := by
  rw [target_eq, hlong, walk_eq_error hmax hk hnone hbefore]
  rfl

/-- Where a gravity-well algorithm gives a target, the codes decode that it decodes on its way. -/
theorem exists_targets_of_target (hmax : window.max ≠ 0) (hlong : tooShort prev window = false)
    {t : Target} (ht : w.target prev history spacing window easiest = .ok t) :
    ∃ targets : Nat → Target, ∀ k < w.decodedCount prev history spacing window,
      (read history prev k).target? = some (targets k) := by
  refine (exists_targets_or_first_undecodable history prev _).resolve_right ?_
  rintro ⟨k, hk, hnone, hbefore⟩
  exact nomatch ht.symm.trans (target_eq_error hmax hlong hk hnone hbefore)

end Algorithm

end HeaderRules.Gravity
