import HeaderRules.Proofs.CheckedAverage
import HeaderRules.Proofs.GravityRun

/-!
# Checked runs of the gravity wells

Each gravity-well algorithm is run once more in checked arithmetic: its averages of targets, the
elapsed and the expected seconds, the sums and averages of intervals. A visit of a run is the visit
of the machine as long as what has been summed up is bounded by the number of blocks read, and each
visit keeps those bounds, whatever the times of the blocks are (`Kimoto.follows`, `Wave.follows`,
`Wave3.follows`). So over at most 2²⁹ blocks the two runs go through the same states
(`Follows.walk`).

The first Dark Gravity Wave needs the most. Its average of intervals is truncated at every step, but
it stays between intervals (`Wave.moveTo_eq`), and the sums grow by no more than 2³² a block
(`Wave.Intervals.add_eq`). The event horizon of the Kimoto Gravity Well is computed in floating
point and left as it is; it is given the exact numbers.
-/

namespace HeaderRules

namespace Gravity

/-! ## The steps of the machine -/

/-- What has been accumulated with one more interval, which counts only where the block before it
has a positive time. -/
def takeInInterval {α : Type} (add : α → Int64 → α) (lastTime time : Int64) (accumulated : α) : α :=
  if lastTime > 0 then add accumulated (lastTime - time) else accumulated

/-- Ends the walk at a state in which enough blocks are read and the event horizon is left. -/
def Kimoto.conclude (minimum : UInt64) (s : State) : Visit State :=
  if s.mass ≥ minimum && leavesHorizon s.mass s.actual s.expected then .stop s else .next s

theorem Kimoto.visit_eq (newest spacing : UInt32) (minimum : UInt64) (s : State)
    (b : StoredBlock) :
    visit newest spacing minimum s b =
      (takeIn incrementalAverage (s.mass + 1) s.average b).map fun average =>
        conclude minimum ⟨s.mass + 1, average, elapsed newest b,
          seconds spacing * signedCount (s.mass + 1)⟩ := by
  unfold visit takeIn
  cases b.decodedTarget <;> rfl

/-- Moves an average of intervals toward one more of them, the `n`-th. -/
def Wave.moveTo (average interval n : Int64) : Int64 :=
  if n = 1 then interval else (interval - average) / n + average

theorem Wave.Intervals.add_eq (i : Intervals) (newest interval : Int64) :
    i.add newest interval =
      if i.averaged ≤ newest then
        ⟨moveTo i.average interval (i.averaged + 1), i.averaged + 1, i.total + interval,
          i.summed + 1⟩
      else ⟨i.average, i.averaged, i.total + interval, i.summed + 1⟩ := by
  unfold add
  split_ifs <;> rfl

/-- The visits of both waves take in a target, if it is among the newest, and go on. -/
theorem map_takeInNewest {α : Type} (combine : Target → Target → UInt64 → Target)
    (newest count : UInt64) (average : Target) (b : StoredBlock) (next : Target → α) :
    (if count ≤ newest then do
        let target ← b.decodedTarget
        let average ← pure (if count = 1 then target else combine average target count)
        .ok (next average)
      else do
        let average ← pure average
        .ok (next average)) = (takeInNewest combine newest count average b).map next := by
  unfold takeInNewest takeIn
  by_cases hnewest : count ≤ newest
  · rw [if_pos hnewest, if_pos hnewest]
    cases b.decodedTarget <;> rfl
  · rw [if_neg hnewest, if_neg hnewest]
    rfl

theorem Wave.visit_eq (minimum : UInt64) (s : State) (b : StoredBlock) :
    visit minimum s b =
      (takeInNewest incrementalAverage minimum (s.count + 1) s.average b).map fun average =>
        .next ⟨s.count + 1, average,
          takeInInterval (·.add (signedCount minimum)) s.lastTime (seconds b.time) s.intervals,
          seconds b.time⟩ := by
  rw [← map_takeInNewest]
  rfl

theorem Wave3.visit_eq (minimum : UInt64) (s : State) (b : StoredBlock) :
    visit minimum s b =
      (takeInNewest weightedAverage minimum (s.count + 1) s.average b).map fun average =>
        .next ⟨s.count + 1, average,
          takeInInterval (· + ·) s.lastTime (seconds b.time) s.actual, seconds b.time⟩ := by
  rw [← map_takeInNewest]
  rfl

namespace Visit

variable {σ τ : Type}

/-- The state that a visit leaves. -/
def state : Visit σ → σ
  | next s => s
  | stop s => s

/-- A visit seen through a view of its state. -/
def map (f : σ → τ) : Visit σ → Visit τ
  | next s => .next (f s)
  | stop s => .stop (f s)

end Visit

end Gravity

namespace Checked

open Gravity Outcome

/-! ## Walks -/

section

variable {σ τ : Type}

/-- Visits at most `limit` blocks from `b` backward and returns the last state. -/
def walk (visit : τ → StoredBlock → Except Fault (Visit τ)) (history : History) :
    (limit : Nat) → StoredBlock → τ → Except Fault τ
  | 0, _, state => .ok state
  | limit + 1, b, state =>
    if b.height = 0 then .ok state
    else
      match visit state b with
      | .ok (.next state) => walk visit history limit (stepBack history b) state
      | .ok (.stop state) => .ok state
      | .error e => .error e

/-- A checked visitor does what a visitor of the machine does, as long as the state is bounded by
how many blocks are read, and fewer than `most` are read. Such a visit keeps the bounds. -/
structure Follows (checked : τ → StoredBlock → Except Fault (Visit τ))
    (visit : σ → StoredBlock → Except VerificationError (Visit σ)) (exact : σ → τ)
    (Bounded : Nat → σ → Prop) (most : Nat) : Prop where
  visit_eq : ∀ {k s}, k < most → Bounded k s → ∀ b,
    checked (exact s) b = asExact (Visit.map exact) (visit s b)
  bounded : ∀ {k s}, k < most → Bounded k s → ∀ {b v}, visit s b = .ok v → Bounded (k + 1) v.state

variable {checked : τ → StoredBlock → Except Fault (Visit τ)}
  {visit : σ → StoredBlock → Except VerificationError (Visit σ)} {exact : σ → τ}
  {Bounded : Nat → σ → Prop} {most : Nat}

/-- From a bounded state the two walks come to the same end, and that is bounded again. -/
theorem Follows.walk (h : Follows checked visit exact Bounded most) (history : History)
    {k limit : Nat} (hk : k + limit ≤ most) {s : σ} (hs : Bounded k s) (b : StoredBlock) :
    Checked.walk checked history limit b (exact s) =
        asExact exact (Gravity.walk visit history limit b s) ∧
      ∀ t, Gravity.walk visit history limit b s = .ok t → ∃ j ≤ most, Bounded j t := by
  induction limit generalizing k s b with
  | zero =>
    refine ⟨rfl, fun t ht => ⟨k, hk, ?_⟩⟩
    obtain rfl : s = t := Except.ok.inj ht
    exact hs
  | succ limit ih =>
    rw [Checked.walk, Gravity.walk, h.visit_eq (by omega) hs b]
    split_ifs
    · refine ⟨rfl, fun t ht => ⟨k, by omega, ?_⟩⟩
      obtain rfl : s = t := Except.ok.inj ht
      exact hs
    · cases hvisit : visit s b with
      | error e =>
        refine ⟨rfl, fun t ht => ?_⟩
        cases ht
      | ok v =>
        have hnext := h.bounded (by omega) hs hvisit
        cases v with
        | next state => exact ih (by omega) hnext (stepBack history b)
        | stop state =>
          refine ⟨rfl, fun t ht => ⟨k + 1, by omega, ?_⟩⟩
          obtain rfl : state = t := Except.ok.inj ht
          exact hnext

end

/-! ## Counts, times and intervals -/

/-- A count of blocks is raised without wrapping. -/
theorem toNat_add_one {n : UInt64} (hn : n.toNat + 1 < 2 ^ 64) :
    (n + 1).toNat = n.toNat + 1 := by
  rw [UInt64.toNat_add, UInt64.toNat_one]
  exact Nat.mod_eq_of_lt hn

theorem natCast_add_one {n : UInt64} (hn : n.toNat + 1 < 2 ^ 64) :
    (n.toNat + 1 : Int) = (n + 1).toNat := by
  rw [toNat_add_one hn]
  rfl

/-- A count that fits into a signed word is the same number there. -/
theorem signed64_fit_count {n : UInt64} (hn : n.toNat < 2 ^ 63) :
    signed64.fit n.toNat = .ok (signedCount n).toInt := by
  have hexact : (signedCount n).toInt = n.toNat := toInt_clampInt64_of_mem (by omega) (by omega)
  rw [← hexact, signed64_fit_toInt]

/-- The seconds that at most 2²⁹ blocks should take are formed exactly, and there is room for three
times as many. -/
theorem seconds_mul_count (spacing : UInt32) (count : UInt64) (hcount : count.toNat ≤ 2 ^ 29) :
    (spacing.toNat * (signedCount count).toInt : Int) =
        (seconds spacing * signedCount count).toInt ∧
      0 ≤ (seconds spacing * signedCount count).toInt ∧
      (seconds spacing * signedCount count).toInt ≤ 2 ^ 61 := by
  have hbound : spacing.toNat * count.toNat ≤ 2 ^ 32 * 2 ^ 29 :=
    Nat.mul_le_mul spacing.toNat_lt.le hcount
  have hsigned : (signedCount count).toInt = count.toNat :=
    toInt_clampInt64_of_mem (by omega) (by omega)
  have hexact : (expectedSeconds spacing count.toNat).toInt = count.toNat * spacing.toNat :=
    toInt_expectedSeconds (by rw [Nat.mul_comm]; omega)
  rw [expectedSeconds, UInt64.ofNat_toNat, Int.mul_comm, ← Int.natCast_mul] at hexact
  rw [hsigned, ← Int.natCast_mul, hexact]
  omega

/-- The time of a block, or zero before the first. -/
def IsTime (t : Int64) : Prop := 0 ≤ t.toInt ∧ t.toInt < 0x100000000

theorem isTime_seconds (t : UInt32) : IsTime (seconds t) := by
  have := t.toNat_lt
  rw [IsTime, toInt_seconds]
  omega

/-- What the difference of two times can be. -/
def IsInterval (t : Int64) : Prop := -0x100000000 < t.toInt ∧ t.toInt < 0x100000000

/-- The difference of two times is formed exactly. -/
theorem isInterval_sub {lastTime : Int64} (hlast : IsTime lastTime) (time : UInt32) :
    IsInterval (lastTime - seconds time) ∧
      lastTime.toInt - time.toNat = (lastTime - seconds time).toInt := by
  have htime := time.toNat_lt
  have hseconds := toInt_seconds time
  obtain ⟨hnonneg, hlt⟩ := hlast
  have hexact : (lastTime - seconds time).toInt = lastTime.toInt - time.toNat := by
    rw [toInt_sub_of_mem (by omega) (by omega), hseconds]
  exact ⟨⟨by omega, by omega⟩, hexact.symm⟩

/-- What has been accumulated with one more interval, which counts only where the block before it
has a positive time. -/
def takeInInterval {α : Type} (add : α → Int → Except Fault α) (lastTime time : Int)
    (accumulated : α) : Except Fault α :=
  if lastTime > 0 then do
    let interval ← signed64.fit (lastTime - time)
    add accumulated interval
  else return accumulated

section

variable {σ τ : Type} {s : σ} {lastTime : Int64}

theorem takeInInterval_eq (checked : τ → Int → Except Fault τ) (add : σ → Int64 → σ)
    (exact : σ → τ) (hlast : IsTime lastTime) (time : UInt32)
    (hadd : ∀ interval, IsInterval interval →
      checked (exact s) interval.toInt = .ok (exact (add s interval))) :
    takeInInterval checked lastTime.toInt time.toNat (exact s) =
      .ok (exact (Gravity.takeInInterval add lastTime (seconds time) s)) := by
  have hzero : (0 : Int64).toInt = 0 := rfl
  have hpositive : lastTime.toInt > 0 ↔ lastTime > 0 := by
    rw [gt_iff_lt, gt_iff_lt, Int64.lt_iff_toInt_lt, hzero]
  obtain ⟨hinterval, hexact⟩ := isInterval_sub hlast time
  unfold takeInInterval Gravity.takeInInterval
  by_cases hcounts : lastTime > 0
  · rw [if_pos (hpositive.2 hcounts), if_pos hcounts, hexact, signed64_fit_toInt, ok_bind]
    exact hadd _ hinterval
  · rw [if_neg (mt hpositive.1 hcounts), if_neg hcounts]
    rfl

/-- What holds of an accumulation with and without one more interval holds after a block. -/
theorem takeInInterval_mem {P : σ → Prop} (add : σ → Int64 → σ) (hlast : IsTime lastTime)
    (time : UInt32) (hs : P s) (hadd : ∀ interval, IsInterval interval → P (add s interval)) :
    P (Gravity.takeInInterval add lastTime (seconds time) s) := by
  unfold Gravity.takeInInterval
  split_ifs
  · exact hadd _ (isInterval_sub hlast time).1
  · exact hs

end

/-! ## Kimoto Gravity Well -/

namespace Kimoto

/-- What is known after some blocks. -/
structure State where
  /-- The number of blocks read. -/
  mass : Int
  average : Int
  /-- The seconds between the newest block and the last one read. -/
  actual : Int
  /-- The seconds that the blocks read should have taken. -/
  expected : Int
deriving DecidableEq, Repr

/-- The numbers of a state of the machine. -/
def exact (s : Gravity.Kimoto.State) : State :=
  ⟨s.mass.toNat, exactTarget s.average, s.actual.toInt, s.expected.toInt⟩

/-- Ends the walk at a state in which enough blocks are read and the event horizon is left. -/
def conclude (minimum : UInt64) (s : State) : Visit State :=
  if s.mass ≥ minimum.toNat && Gravity.Kimoto.leavesHorizon (.ofNat s.mass.toNat)
    (.ofInt s.actual) (.ofInt s.expected) then .stop s else .next s

/-- Reads one block; `newest` is the time of the block the walk started from. -/
def visit (newest spacing : UInt32) (minimum : UInt64) (s : State) (b : StoredBlock) :
    Except Fault (Visit State) := do
  let mass ← (word 64).fit (s.mass + 1)
  let average ← takeIn incrementalAverage mass s.average b
  let elapsed ← signed64.fit (newest.toNat - b.time.toNat)
  let actual := max elapsed (Gravity.Kimoto.elapsedFloor b.height).toInt
  let count ← signed64.fit mass
  let expected ← signed64.fit (spacing.toNat * count)
  return conclude minimum ⟨mass, average, actual, expected⟩

theorem conclude_exact (minimum : UInt64) (s : Gravity.Kimoto.State) :
    conclude minimum (exact s) = (Gravity.Kimoto.conclude minimum s).map exact := by
  have henough : (s.mass.toNat : Int) ≥ minimum.toNat ↔ s.mass ≥ minimum := by
    rw [ge_iff_le, ge_iff_le, UInt64.le_iff_toNat_le]
    omega
  unfold conclude Gravity.Kimoto.conclude
  simp only [exact, henough, Int.toNat_natCast, UInt64.ofNat_toNat, Int64.ofInt_toInt]
  split_ifs <;> rfl

theorem state_conclude (minimum : UInt64) (s : Gravity.Kimoto.State) :
    (Gravity.Kimoto.conclude minimum s).state = s := by
  unfold Gravity.Kimoto.conclude
  split_ifs <;> rfl

/-- A state after `k` blocks. -/
structure Bounded (k : Nat) (s : Gravity.Kimoto.State) : Prop where
  mass : s.mass.toNat = k

theorem follows (newest spacing : UInt32) (minimum : UInt64) :
    Follows (visit newest spacing minimum) (Gravity.Kimoto.visit newest spacing minimum) exact
      Bounded (2 ^ 29) where
  visit_eq := by
    intro k s hk hs b
    have hmass := hs.mass
    have hmass_succ : (s.mass + 1).toNat = s.mass.toNat + 1 := toNat_add_one (by omega)
    have helapsed := (isInterval_sub (isTime_seconds newest) b.time).2
    rw [toInt_seconds] at helapsed
    have hexpected := (seconds_mul_count spacing (s.mass + 1) (by omega)).1
    -- Each result is now the number that a word of the machine has, and so it fits.
    simp only [visit, exact, natCast_add_one (show s.mass.toNat + 1 < 2 ^ 64 by omega),
      word_fit_toNat, ok_bind,
      takeIn_eq computes_incrementalAverage (show (s.mass + 1).toNat + 1 < 2 ^ 64 by omega),
      helapsed, signed64_fit_toInt, signed64_fit_count (show (s.mass + 1).toNat < 2 ^ 63 by omega),
      hexpected, ← toInt_max]
    rw [Gravity.Kimoto.visit_eq]
    apply asExact_bind
    intro average
    rw [← conclude_exact, exact]
    rfl
  bounded := by
    intro k s hk hs b v hv
    rw [Gravity.Kimoto.visit_eq] at hv
    obtain ⟨average, -, rfl⟩ := map_eq_ok_iff.1 hv
    have hmass := hs.mass
    rw [state_conclude]
    exact ⟨(toNat_add_one (by omega)).trans (congrArg (· + 1) hmass)⟩

end Kimoto

/-! ## Dark Gravity Wave -/

namespace Wave

/-- Moves an average of intervals toward one more of them, the `n`-th. -/
def moveTo (average interval n : Int) : Except Fault Int :=
  if n = 1 then .ok interval
  else do
    let distance ← signed64.fit (interval - average)
    let part ← signed64.quotient distance n
    signed64.fit (part + average)

/-- A moved average of intervals is an interval again. -/
theorem moveTo_eq {average interval n : Int64} (haverage : IsInterval average)
    (hinterval : IsInterval interval) (hn : 1 ≤ n.toInt) :
    moveTo average.toInt interval.toInt n.toInt =
        .ok (Gravity.Wave.moveTo average interval n).toInt ∧
      IsInterval (Gravity.Wave.moveTo average interval n) := by
  obtain ⟨hlow, hhigh⟩ := haverage
  obtain ⟨hlow', hhigh'⟩ := hinterval
  have hone : n.toInt = 1 ↔ n = 1 := by
    rw [← Int64.toInt_inj]
    rfl
  unfold moveTo Gravity.Wave.moveTo
  by_cases hfirst : n = 1
  · rw [if_pos (hone.2 hfirst), if_pos hfirst]
    exact ⟨rfl, hlow', hhigh'⟩
  · have hdivisor : n ≠ -1 := by
      rintro rfl
      exact absurd hn (by decide)
    have hdistance : (interval - average).toInt = interval.toInt - average.toInt :=
      toInt_sub_of_mem (by omega) (by omega)
    have hpart := Int64.toInt_div_of_ne_right (interval - average) n hdivisor
    have hbetween := Range.tdiv_mem_between (a := (interval - average).toInt) hn
    have hmoved : ((interval - average) / n + average).toInt =
        ((interval - average) / n).toInt + average.toInt :=
      toInt_add_of_mem (by omega) (by omega)
    rw [if_neg (mt hone.1 hfirst), if_neg hfirst, ← hdistance, signed64_fit_toInt, ok_bind,
      signed64_quotient (toInt_mem_signed64 _) hn, ok_bind, ← hpart, ← hmoved, signed64_fit_toInt]
    exact ⟨rfl, by omega, by omega⟩

/-- What is known about the intervals between the blocks read. -/
structure Intervals where
  /-- The incremental average of the newest intervals. -/
  average : Int
  /-- How many intervals are in that average. -/
  averaged : Int
  /-- The sum of all intervals. -/
  total : Int
  /-- How many intervals are in that sum. -/
  summed : Int
deriving DecidableEq, Repr

namespace Intervals

/-- The numbers of the machine's intervals. -/
def exact (i : Gravity.Wave.Intervals) : Intervals :=
  ⟨i.average.toInt, i.averaged.toInt, i.total.toInt, i.summed.toInt⟩

/-- Takes in one interval; the average stops growing once it holds more than `newest` of them. -/
def add (i : Intervals) (newest interval : Int) : Except Fault Intervals := do
  let total ← signed64.fit (i.total + interval)
  let summed ← signed64.fit (i.summed + 1)
  if i.averaged ≤ newest then
    let averaged ← signed64.fit (i.averaged + 1)
    let average ← moveTo i.average interval averaged
    return ⟨average, averaged, total, summed⟩
  else
    return ⟨i.average, i.averaged, total, summed⟩

/-- Intervals between at most `k + 1` blocks: no average is greater than an interval can be, and no
sum greater than so many of them. -/
structure Bounded (k : Nat) (i : Gravity.Wave.Intervals) : Prop where
  average : IsInterval i.average
  averaged : 0 ≤ i.averaged.toInt ∧ i.averaged.toInt ≤ k
  total : -(0x100000000 * k) ≤ i.total.toInt ∧ i.total.toInt ≤ 0x100000000 * k
  summed : 0 ≤ i.summed.toInt ∧ i.summed.toInt ≤ k

variable {k : Nat} {i : Gravity.Wave.Intervals} {interval : Int64}

theorem Bounded.succ (h : Bounded k i) : Bounded (k + 1) i := by
  obtain ⟨haverage, haveraged, htotal, hsummed⟩ := h
  exact ⟨haverage, by omega, by omega, by omega⟩

/-- One more interval is taken in as by the machine, and leaves what has been summed up bounded. -/
theorem add_eq (hk : k < 2 ^ 29) (hi : Bounded k i) (newest : Int64)
    (hinterval : IsInterval interval) :
    (exact i).add newest.toInt interval.toInt = .ok (exact (i.add newest interval)) ∧
      Bounded (k + 1) (i.add newest interval) := by
  obtain ⟨haverage, haveraged, htotal, hsummed⟩ := hi
  have ⟨hlow, hhigh⟩ := hinterval
  have hone : (1 : Int64).toInt = 1 := rfl
  have htotal_succ : (i.total + interval).toInt = i.total.toInt + interval.toInt :=
    toInt_add_of_mem (by omega) (by omega)
  have hsummed_succ : (i.summed + 1).toInt = i.summed.toInt + 1 :=
    toInt_add_of_mem (by omega) (by omega)
  have haveraged_succ : (i.averaged + 1).toInt = i.averaged.toInt + 1 :=
    toInt_add_of_mem (by omega) (by omega)
  obtain ⟨hmove, hmoved⟩ := moveTo_eq haverage hinterval
    (show 1 ≤ (i.averaged + 1).toInt by omega)
  have hle : i.averaged.toInt ≤ newest.toInt ↔ i.averaged ≤ newest := Int64.le_iff_toInt_le.symm
  simp only [add, exact, ← htotal_succ, ← hsummed_succ, ← haveraged_succ, signed64_fit_toInt,
    ok_bind, hmove, hle, Gravity.Wave.Intervals.add_eq]
  by_cases hnewest : i.averaged ≤ newest
  · rw [if_pos hnewest, if_pos hnewest]
    exact ⟨rfl, hmoved, by dsimp only; omega, by dsimp only; omega, by dsimp only; omega⟩
  · rw [if_neg hnewest, if_neg hnewest]
    exact ⟨rfl, haverage, by dsimp only; omega, by dsimp only; omega, by dsimp only; omega⟩

end Intervals

/-- What is known after some blocks. -/
structure State where
  /-- The number of blocks read. -/
  count : Int
  average : Int
  intervals : Intervals
  /-- The time of the last block read. -/
  lastTime : Int
deriving DecidableEq, Repr

/-- The numbers of a state of the machine. -/
def exact (s : Gravity.Wave.State) : State :=
  ⟨s.count.toNat, exactTarget s.average, .exact s.intervals, s.lastTime.toInt⟩

/-- Reads one block. -/
def visit (minimum : UInt64) (s : State) (b : StoredBlock) : Except Fault (Visit State) := do
  let count ← (word 64).fit (s.count + 1)
  let newest ← signed64.fit minimum.toNat
  let average ← takeInNewest incrementalAverage minimum.toNat count s.average b
  let intervals ← takeInInterval (·.add newest) s.lastTime b.time.toNat s.intervals
  return .next ⟨count, average, intervals, b.time.toNat⟩

/-- A state after `k` blocks. -/
structure Bounded (k : Nat) (s : Gravity.Wave.State) : Prop where
  count : s.count.toNat = k
  intervals : Intervals.Bounded k s.intervals
  lastTime : IsTime s.lastTime

theorem follows {minimum : UInt64} (hminimum : minimum.toNat < 2 ^ 63) :
    Follows (visit minimum) (Gravity.Wave.visit minimum) exact Bounded (2 ^ 29) where
  visit_eq := by
    intro k s hk hs b
    have hcount := hs.count
    have hcount_succ : (s.count + 1).toNat = s.count.toNat + 1 := toNat_add_one (by omega)
    have hintervals := takeInInterval_eq (·.add (signedCount minimum).toInt)
      (·.add (signedCount minimum)) Intervals.exact hs.lastTime b.time fun interval hinterval =>
        (Intervals.add_eq hk hs.intervals (signedCount minimum) hinterval).1
    simp only [visit, exact, natCast_add_one (show s.count.toNat + 1 < 2 ^ 64 by omega),
      word_fit_toNat, signed64_fit_count hminimum, ok_bind,
      takeInNewest_eq computes_incrementalAverage (show (s.count + 1).toNat + 1 < 2 ^ 64 by omega),
      hintervals]
    rw [Gravity.Wave.visit_eq]
    apply asExact_bind
    intro average
    rw [Visit.map, exact, toInt_seconds]
    rfl
  bounded := by
    intro k s hk hs b v hv
    rw [Gravity.Wave.visit_eq] at hv
    obtain ⟨average, -, rfl⟩ := map_eq_ok_iff.1 hv
    have hcount := hs.count
    refine ⟨(toNat_add_one (by omega)).trans (congrArg (· + 1) hcount), ?_, isTime_seconds b.time⟩
    apply takeInInterval_mem (·.add (signedCount minimum)) hs.lastTime b.time hs.intervals.succ
    intro interval hinterval
    exact (Intervals.add_eq hk hs.intervals (signedCount minimum) hinterval).2

end Wave

/-! ## Dark Gravity Wave, third version -/

namespace Wave3

/-- What is known after some blocks. -/
structure State where
  /-- The number of blocks read. -/
  count : Int
  average : Int
  /-- The sum of the intervals. -/
  actual : Int
  /-- The time of the last block read. -/
  lastTime : Int
deriving DecidableEq, Repr

/-- The numbers of a state of the machine. -/
def exact (s : Gravity.Wave3.State) : State :=
  ⟨s.count.toNat, exactTarget s.average, s.actual.toInt, s.lastTime.toInt⟩

/-- Reads one block. -/
def visit (minimum : UInt64) (s : State) (b : StoredBlock) : Except Fault (Visit State) := do
  let count ← (word 64).fit (s.count + 1)
  let average ← takeInNewest weightedAverage minimum.toNat count s.average b
  let actual ← takeInInterval (fun actual interval => signed64.fit (actual + interval)) s.lastTime
    b.time.toNat s.actual
  return .next ⟨count, average, actual, b.time.toNat⟩

/-- A state after `k` blocks: no sum of intervals is greater than so many of them can be. -/
structure Bounded (k : Nat) (s : Gravity.Wave3.State) : Prop where
  count : s.count.toNat = k
  actual : -(0x100000000 * k) ≤ s.actual.toInt ∧ s.actual.toInt ≤ 0x100000000 * k
  lastTime : IsTime s.lastTime

/-- A sum of fewer than 2²⁹ intervals takes in one more. -/
theorem toInt_add_interval {k : Nat} (hk : k < 2 ^ 29) {actual interval : Int64}
    (hactual : -(0x100000000 * k) ≤ actual.toInt ∧ actual.toInt ≤ 0x100000000 * k)
    (hinterval : IsInterval interval) :
    (actual + interval).toInt = actual.toInt + interval.toInt := by
  obtain ⟨hlow, hhigh⟩ := hinterval
  exact toInt_add_of_mem (by omega) (by omega)

theorem follows (minimum : UInt64) :
    Follows (visit minimum) (Gravity.Wave3.visit minimum) exact Bounded (2 ^ 29) where
  visit_eq := by
    intro k s hk hs b
    have hcount := hs.count
    have hcount_succ : (s.count + 1).toNat = s.count.toNat + 1 := toNat_add_one (by omega)
    have hactual := takeInInterval_eq (fun actual interval => signed64.fit (actual + interval))
      (· + ·) Int64.toInt hs.lastTime b.time fun interval hinterval => by
        rw [← toInt_add_interval hk hs.actual hinterval, signed64_fit_toInt]
    simp only [visit, exact, natCast_add_one (show s.count.toNat + 1 < 2 ^ 64 by omega),
      word_fit_toNat, ok_bind,
      takeInNewest_eq computes_weightedAverage (show (s.count + 1).toNat + 1 < 2 ^ 64 by omega),
      hactual]
    rw [Gravity.Wave3.visit_eq]
    apply asExact_bind
    intro average
    rw [Visit.map, exact, toInt_seconds]
    rfl
  bounded := by
    intro k s hk hs b v hv
    rw [Gravity.Wave3.visit_eq] at hv
    obtain ⟨average, -, rfl⟩ := map_eq_ok_iff.1 hv
    obtain ⟨hlow, hhigh⟩ := hs.actual
    have hcount := hs.count
    refine ⟨(toNat_add_one (by omega)).trans (congrArg (· + 1) hcount), ?_, isTime_seconds b.time⟩
    apply takeInInterval_mem (P := fun actual : Int64 =>
      -(0x100000000 * (k + 1 : Nat)) ≤ actual.toInt ∧ actual.toInt ≤ 0x100000000 * (k + 1 : Nat))
      (· + ·) hs.lastTime b.time
    · omega
    · intro interval hinterval
      have hsum := toInt_add_interval hk hs.actual hinterval
      obtain ⟨hlow', hhigh'⟩ := hinterval
      omega

end Wave3

end Checked

end HeaderRules
