import HeaderRules.Proofs.Ancestry
import HeaderRules.Proofs.RatioRetarget
import HeaderRules.Proofs.RetargetCheck
import HeaderRules.Proofs.Schedule

/-!
# The search for the last real difficulty

After a short pause a test network returns to the target of the nearest block that was not itself
mined at the easiest target. The search for it passes over one block after the other and has three
ends: such a block, a block whose target does not decode, and a block that has no stored parent.
Heights fall by one from link to link, so that the search is over at the latest where an interval
starts, and the limit it is given plays no part (`lastRealBlock_eq_of_limit`).
-/

namespace HeaderRules.ChainParams

open Outcome

variable {c : ChainParams} {interval : UInt32} {history : History} {prev a b : StoredBlock}
  {n limit : Nat}

/-! ## Real and passed blocks -/

/-- A block whose difficulty is real: the genesis block, a block where an interval starts, and any
block with another target than the easiest one. -/
def IsReal (c : ChainParams) (interval : UInt32) (b : StoredBlock) : Prop :=
  b.header = c.genesis.header ∨ interval.toNat ∣ b.height.toNat ∨
    ∃ t, b.target? = some t ∧ t ≠ c.maxTarget

/-- A block that the search passes over: it has the easiest target and none of the places where
that is real. -/
def IsPassed (c : ChainParams) (interval : UInt32) (b : StoredBlock) : Prop :=
  b.header ≠ c.genesis.header ∧ ¬interval.toNat ∣ b.height.toNat ∧ b.target? = some c.maxTarget

theorem startsInterval_iff (hinterval : 0 < interval.toNat) :
    c.startsInterval interval b = true ↔
      b.header = c.genesis.header ∨ interval.toNat ∣ b.height.toNat := by
  have hpos : interval ≠ 0 := by
    rw [ne_eq, ← UInt32.toNat_inj]
    exact hinterval.ne'
  have hdvd : b.height % interval = 0 ↔ interval.toNat ∣ b.height.toNat := by
    rw [← UInt32.toNat_inj, UInt32.toNat_mod, Nat.dvd_iff_mod_eq_zero]
    rfl
  simp only [startsInterval, Bool.or_eq_true, Bool.and_eq_true, bne_iff_ne, beq_iff_eq, hdvd,
    ne_eq, hpos, not_false_eq_true, true_and]

/-- A block is real or passed over, or it is read for a target that does not decode. -/
theorem isReal_or_isPassed_or_undecodable (c : ChainParams) (interval : UInt32)
    (b : StoredBlock) :
    c.IsReal interval b ∨ c.IsPassed interval b ∨ ¬c.IsReal interval b ∧ b.target? = none := by
  by_cases hreal : c.IsReal interval b
  · exact .inl hreal
  · have hnot := hreal
    simp only [IsReal, not_or, not_exists, not_and, not_not] at hnot
    obtain ⟨hgenesis, hheight, htarget⟩ := hnot
    cases ht : b.target? with
    | none => exact .inr (.inr ⟨hreal, rfl⟩)
    | some t => exact .inr (.inl ⟨hgenesis, hheight, ht.trans (congrArg some (htarget t ht))⟩)

theorem IsReal.lastRealBlock_eq (h : c.IsReal interval b) (hinterval : 0 < interval.toNat)
    (limit : Nat) : c.lastRealBlock interval history limit b = .ok b := by
  cases limit with
  | zero => rfl
  | succ limit =>
    rw [lastRealBlock]
    by_cases hstart : c.startsInterval interval b = true
    · rw [if_pos hstart]
    · rw [if_neg hstart]
      rw [startsInterval_iff hinterval, not_or] at hstart
      obtain ⟨t, ht, hne⟩ := (h.resolve_left hstart.1).resolve_left hstart.2
      rw [StoredBlock.decodedTarget_eq_ok_iff.2 ht]
      exact if_pos hne

theorem IsPassed.lastRealBlock_succ (h : c.IsPassed interval b) (hinterval : 0 < interval.toNat)
    (limit : Nat) :
    c.lastRealBlock interval history (limit + 1) b =
      history.parent b >>= c.lastRealBlock interval history limit := by
  have hstart : ¬c.startsInterval interval b = true := by
    rw [startsInterval_iff hinterval, not_or]
    exact ⟨h.1, h.2.1⟩
  rw [lastRealBlock, if_neg hstart, StoredBlock.decodedTarget_eq_ok_iff.2 h.2.2]
  show (if c.maxTarget ≠ c.maxTarget then _ else _) = _
  rw [if_neg (not_not.2 rfl)]
  cases history.parent b <;> rfl

theorem lastRealBlock_succ_of_undecodable (hreal : ¬c.IsReal interval b)
    (hnone : b.target? = none) (hinterval : 0 < interval.toNat) (limit : Nat) :
    c.lastRealBlock interval history (limit + 1) b =
      .error (.invalidStoredTarget b.bits b.height) := by
  have hstart : ¬c.startsInterval interval b = true := by
    rw [startsInterval_iff hinterval]
    exact fun h => hreal (h.imp_right .inl)
  rw [lastRealBlock, if_neg hstart, StoredBlock.decodedTarget_eq_error_iff.2 ⟨hnone, rfl⟩]

/-! ## The blocks that the search reads -/

/-- The search from `prev` comes to the block `n` links back: all blocks before it are passed
over. -/
structure Reaches (c : ChainParams) (interval : UInt32) (history : History) (prev : StoredBlock)
    (n : Nat) (b : StoredBlock) : Prop where
  stored : history.ancestor n prev = .ok b
  passed : ∀ k < n, ∀ a, history.ancestor k prev = .ok a → c.IsPassed interval a

theorem reaches_zero : c.Reaches interval history prev 0 prev := ⟨rfl, nofun⟩

/-- The search passes over its first block and goes on from the parent. -/
theorem reaches_succ_iff :
    c.Reaches interval history prev (n + 1) b ↔
      c.IsPassed interval prev ∧ ∃ p, history prev.prevBlockHash = some p ∧
        c.Reaches interval history p n b := by
  constructor
  · rintro ⟨hstored, hpassed⟩
    obtain ⟨p, hp, hb⟩ := History.ancestor_succ_eq_ok_iff.1 hstored
    refine ⟨hpassed 0 n.succ_pos prev rfl, p, hp, hb, fun k hk a ha => ?_⟩
    exact hpassed (k + 1) (by omega) a (History.ancestor_succ_eq_ok_iff.2 ⟨p, hp, ha⟩)
  · rintro ⟨hprev, p, hp, hb, hpassed⟩
    refine ⟨History.ancestor_succ_eq_ok_iff.2 ⟨p, hp, hb⟩, fun k hk a ha => ?_⟩
    cases k with
    | zero => exact History.ancestor_zero_eq_ok_iff.1 ha ▸ hprev
    | succ k =>
      obtain ⟨q, hq, ha⟩ := History.ancestor_succ_eq_ok_iff.1 ha
      obtain rfl := Option.some.inj (hp.symm.trans hq)
      exact hpassed k (by omega) a ha

/-- The search that comes to a block goes on as the one from that block does. -/
theorem Reaches.lastRealBlock_eq (h : c.Reaches interval history prev n b)
    (hinterval : 0 < interval.toNat) (hlimit : n ≤ limit) :
    c.lastRealBlock interval history limit prev =
      c.lastRealBlock interval history (limit - n) b := by
  induction n generalizing prev limit with
  | zero => rw [History.ancestor_zero_eq_ok_iff.1 h.stored, Nat.sub_zero]
  | succ n ih =>
    obtain ⟨hprev, p, hp, hrest⟩ := reaches_succ_iff.1 h
    obtain ⟨limit, rfl⟩ : ∃ rest, limit = rest + 1 := ⟨limit - 1, by omega⟩
    rw [hprev.lastRealBlock_succ hinterval, History.parent_eq_ok_iff.2 hp, ok_bind,
      ih hrest (by omega), Nat.add_sub_add_right]

/-- Heights fall by one from each passed block to its parent. -/
def Descends (c : ChainParams) (interval : UInt32) (history : History) (prev : StoredBlock) :
    Prop :=
  ∀ k a p, c.Reaches interval history prev k a → c.IsPassed interval a →
    history a.prevBlockHash = some p → p.height.toNat + 1 = a.height.toNat

theorem Descends.parent (h : c.Descends interval history prev) (hprev : c.IsPassed interval prev)
    {p : StoredBlock} (hp : history prev.prevBlockHash = some p) :
    c.Descends interval history p := fun k a q ha =>
  h (k + 1) a q (reaches_succ_iff.2 ⟨hprev, p, hp, ha⟩)

/-- A passed block is not where an interval starts, so that its parent lies in the same interval. -/
theorem IsPassed.mod_parent (h : c.IsPassed interval a) (hinterval : 0 < interval.toNat)
    {height : Nat} (hheight : height + 1 = a.height.toNat) :
    height % interval.toNat + 1 = a.height.toNat % interval.toNat := by
  have hlt := Nat.mod_lt height hinterval
  have hmod : (height % interval.toNat + 1) % interval.toNat = a.height.toNat % interval.toNat := by
    rw [Nat.mod_add_mod, hheight]
  have hne : height % interval.toNat + 1 ≠ interval.toNat := by
    intro hfull
    rw [hfull, Nat.mod_self] at hmod
    exact h.2.1 (Nat.dvd_of_mod_eq_zero hmod.symm)
  rw [Nat.mod_eq_of_lt (by omega)] at hmod
  exact hmod

/-- Within the interval, a block that the search comes to stands `n` blocks before the first. -/
theorem Reaches.mod_height (h : c.Reaches interval history prev n b)
    (hinterval : 0 < interval.toNat) (hdescends : c.Descends interval history prev) :
    b.height.toNat % interval.toNat + n = prev.height.toNat % interval.toNat := by
  induction n generalizing prev with
  | zero => rw [History.ancestor_zero_eq_ok_iff.1 h.stored, Nat.add_zero]
  | succ n ih =>
    obtain ⟨hprev, p, hp, hrest⟩ := reaches_succ_iff.1 h
    have hparent := hprev.mod_parent hinterval (hdescends 0 prev p reaches_zero hprev hp)
    have := ih hrest (hdescends.parent hprev hp)
    omega

/-- There are links left to follow at a block that is not real. -/
theorem Reaches.lt_mod_height (h : c.Reaches interval history prev n b)
    (hinterval : 0 < interval.toNat) (hdescends : c.Descends interval history prev)
    (hreal : ¬c.IsReal interval b) : n < prev.height.toNat % interval.toNat := by
  have hmod := h.mod_height hinterval hdescends
  have hpos : b.height.toNat % interval.toNat ≠ 0 := by
    intro hzero
    exact hreal (.inr (.inl (Nat.dvd_of_mod_eq_zero hzero)))
  omega

theorem IsPassed.not_isReal (h : c.IsPassed interval b) : ¬c.IsReal interval b := by
  rintro (hgenesis | hheight | ⟨t, ht, hne⟩)
  · exact h.1 hgenesis
  · exact h.2.1 hheight
  · exact hne (Option.some.inj (ht.symm.trans h.2.2))

/-! ## The end of the search -/

/-- The search comes to its end within the interval: to a real block, to one whose target does not
decode, or to one without a stored parent. -/
theorem exists_end_of_search (hinterval : 0 < interval.toNat)
    (hdescends : c.Descends interval history prev) :
    ∃ n b, c.Reaches interval history prev n b ∧
      (c.IsReal interval b ∨ (¬c.IsReal interval b ∧ b.target? = none) ∨
        (c.IsPassed interval b ∧ history b.prevBlockHash = none)) := by
  -- The height within the interval falls with every passed block.
  induction hm : prev.height.toNat % interval.toNat generalizing prev with
  | zero => exact ⟨0, prev, reaches_zero, .inl (.inr (.inl (Nat.dvd_of_mod_eq_zero hm)))⟩
  | succ m ih =>
    rcases isReal_or_isPassed_or_undecodable c interval prev with hreal | hpassed | hundecodable
    · exact ⟨0, prev, reaches_zero, .inl hreal⟩
    · cases hp : history prev.prevBlockHash with
      | none => exact ⟨0, prev, reaches_zero, .inr (.inr ⟨hpassed, hp⟩)⟩
      | some p =>
        have hmod := hpassed.mod_parent hinterval (hdescends 0 prev p reaches_zero hpassed hp)
        obtain ⟨n, b, hb, hend⟩ := ih (hdescends.parent hpassed hp) (by omega)
        exact ⟨n + 1, b, reaches_succ_iff.2 ⟨hpassed, p, hp, hb⟩, hend⟩
    · exact ⟨0, prev, reaches_zero, .inr (.inl hundecodable)⟩

theorem Reaches.lastRealBlock_of_isReal (h : c.Reaches interval history prev n b)
    (hinterval : 0 < interval.toNat) (hreal : c.IsReal interval b) (hlimit : n ≤ limit) :
    c.lastRealBlock interval history limit prev = .ok b := by
  rw [h.lastRealBlock_eq hinterval hlimit, hreal.lastRealBlock_eq hinterval]

theorem Reaches.lastRealBlock_of_undecodable (h : c.Reaches interval history prev n b)
    (hinterval : 0 < interval.toNat) (hreal : ¬c.IsReal interval b) (hnone : b.target? = none)
    (hlimit : n < limit) :
    c.lastRealBlock interval history limit prev =
      .error (.invalidStoredTarget b.bits b.height) := by
  obtain ⟨rest, hrest⟩ : ∃ rest, limit - n = rest + 1 := ⟨limit - n - 1, by omega⟩
  rw [h.lastRealBlock_eq hinterval hlimit.le, hrest,
    lastRealBlock_succ_of_undecodable hreal hnone hinterval]

theorem Reaches.lastRealBlock_of_missing (h : c.Reaches interval history prev n b)
    (hinterval : 0 < interval.toNat) (hpassed : c.IsPassed interval b)
    (hmissing : history b.prevBlockHash = none) (hlimit : n < limit) :
    c.lastRealBlock interval history limit prev =
      .error (.missingAncestor b.prevBlockHash (satSub b.height 1)) := by
  obtain ⟨rest, hrest⟩ : ∃ rest, limit - n = rest + 1 := ⟨limit - n - 1, by omega⟩
  rw [h.lastRealBlock_eq hinterval hlimit.le, hrest, hpassed.lastRealBlock_succ hinterval,
    History.parent_eq_error_iff.2 ⟨hmissing, rfl⟩]
  rfl

/-- A limit of as many links as the height is into the interval is no limit. -/
theorem lastRealBlock_eq_of_limit (hinterval : 0 < interval.toNat)
    (hdescends : c.Descends interval history prev) {limit' : Nat}
    (hlimit : prev.height.toNat % interval.toNat ≤ limit)
    (hlimit' : prev.height.toNat % interval.toNat ≤ limit') :
    c.lastRealBlock interval history limit prev = c.lastRealBlock interval history limit' prev := by
  obtain ⟨n, b, hb, hreal | ⟨hreal, hnone⟩ | ⟨hpassed, hmissing⟩⟩ :=
    exists_end_of_search hinterval hdescends
  · have := hb.mod_height hinterval hdescends
    rw [hb.lastRealBlock_of_isReal hinterval hreal (by omega),
      hb.lastRealBlock_of_isReal hinterval hreal (by omega)]
  · have := hb.lt_mod_height hinterval hdescends hreal
    rw [hb.lastRealBlock_of_undecodable hinterval hreal hnone (by omega),
      hb.lastRealBlock_of_undecodable hinterval hreal hnone (by omega)]
  · have := hb.lt_mod_height hinterval hdescends hpassed.not_isReal
    rw [hb.lastRealBlock_of_missing hinterval hpassed hmissing (by omega),
      hb.lastRealBlock_of_missing hinterval hpassed hmissing (by omega)]

/-- With enough links the search finds a real block, or it fails for one of two reasons. -/
theorem lastRealBlock_outcome (hinterval : 0 < interval.toNat)
    (hdescends : c.Descends interval history prev)
    (hlimit : prev.height.toNat % interval.toNat ≤ limit) :
    ∃ n b, c.Reaches interval history prev n b ∧
      ((c.IsReal interval b ∧ c.lastRealBlock interval history limit prev = .ok b) ∨
        ∃ e, c.lastRealBlock interval history limit prev = .error e ∧
          ((b.target? = none ∧ e = .invalidStoredTarget b.bits b.height) ∨
            (c.IsPassed interval b ∧ history b.prevBlockHash = none ∧
              e = .missingAncestor b.prevBlockHash (satSub b.height 1)))) := by
  obtain ⟨n, b, hb, hreal | ⟨hreal, hnone⟩ | ⟨hpassed, hmissing⟩⟩ :=
    exists_end_of_search hinterval hdescends
  · have hmod := hb.mod_height hinterval hdescends
    exact ⟨n, b, hb, .inl ⟨hreal, hb.lastRealBlock_of_isReal hinterval hreal (by omega)⟩⟩
  · have hlt := hb.lt_mod_height hinterval hdescends hreal
    exact ⟨n, b, hb, .inr ⟨_, hb.lastRealBlock_of_undecodable hinterval hreal hnone (by omega),
      .inl ⟨hnone, rfl⟩⟩⟩
  · have hlt := hb.lt_mod_height hinterval hdescends hpassed.not_isReal
    exact ⟨n, b, hb, .inr ⟨_, hb.lastRealBlock_of_missing hinterval hpassed hmissing (by omega),
      .inr ⟨hpassed, hmissing, rfl⟩⟩⟩

/-! ## The judgement -/

variable {next : Header}

/-- A pause is long if the time goes back or passes twice the spacing. -/
theorem isLongPause_iff :
    c.isLongPause prev next = true ↔ next.time.toNat < prev.time.toNat ∨
      prev.time.toNat + 2 * c.params.targetSpacing.toNat < next.time.toNat := by
  have hspacing := c.params.targetSpacing.toNat_lt
  have htwo : (2 : Int64).toInt = 2 := rfl
  have hzero : (0 : Int64).toInt = 0 := rfl
  have hwindow : (satMul64 (seconds c.params.targetSpacing) 2).toInt =
      c.params.targetSpacing.toNat * 2 := by
    rw [satMul64, toInt_seconds, htwo, toInt_clampInt64_of_mem (by omega) (by omega)]
  simp only [isLongPause, Bool.or_eq_true, decide_eq_true_eq, gt_iff_lt, Int64.lt_iff_toInt_lt,
    toInt_satSub64_seconds, hwindow, hzero]
  omega

/-- After a short pause an error of the search is the judgement. -/
theorem checkMinDifficulty_of_error (hshort : ¬c.isLongPause prev next = true)
    {e : VerificationError}
    (hsearch : c.lastRealBlock (c.params.intervalAt prev.height) history searchLimit prev =
      .error e) :
    c.checkMinDifficulty prev next history = .error e := by
  rw [checkMinDifficulty, if_neg hshort, hsearch]
  rfl

/-- After a short pause the target of the block that was found must be repeated. -/
theorem checkMinDifficulty_eq_ok_iff (hshort : ¬c.isLongPause prev next = true)
    (hsearch : c.lastRealBlock (c.params.intervalAt prev.height) history searchLimit prev =
      .ok b) :
    c.checkMinDifficulty prev next history = .ok () ↔
      ∃ t, b.target? = some t ∧ Target.ofCompact? next.bits = some t := by
  rw [checkMinDifficulty, if_neg hshort, hsearch, ok_bind]
  cases Target.ofCompact? next.bits with
  | none => exact iff_of_false nofun (by simp)
  | some declared =>
    simp only [bind_eq_ok_iff, StoredBlock.decodedTarget_eq_ok_iff, Option.some.injEq]
    refine exists_congr fun t => and_congr_right fun _ => ?_
    split_ifs with hne
    · exact iff_of_false nofun fun heq => hne heq.symm
    · exact iff_of_true rfl (not_not.1 hne).symm

/-- While the rule is in force it judges between retarget points. -/
theorem checkDifficulty_of_rule {rule : MinDifficultyRule}
    (hrule : c.params.minDifficulty = some rule)
    (hpoint : c.params.shouldRetarget prev.height = false) (hafter : rule.afterTime < next.time) :
    c.checkDifficulty prev next history = c.checkMinDifficulty prev next history := by
  have hactive : c.activeMinDifficulty next = true := by
    simp [activeMinDifficulty, hrule, hafter]
  rw [checkDifficulty, hpoint, if_neg Bool.false_ne_true, if_pos hactive]

/-- The height is within an interval by less than the search may follow links. -/
theorem mod_height_le_searchLimit (prev : StoredBlock) (interval : UInt32) :
    prev.height.toNat % interval.toNat ≤ searchLimit :=
  (Nat.mod_le _ _).trans prev.height.toNat_lt.le

/-- After a short pause a code passes exactly if the search comes to a real block whose target it
denotes. -/
theorem checkMinDifficulty_eq_ok_iff_reaches (hshort : ¬c.isLongPause prev next = true)
    (hinterval : 0 < (c.params.intervalAt prev.height).toNat)
    (hdescends : c.Descends (c.params.intervalAt prev.height) history prev) :
    c.checkMinDifficulty prev next history = .ok () ↔
      ∃ n b t, c.Reaches (c.params.intervalAt prev.height) history prev n b ∧
        c.IsReal (c.params.intervalAt prev.height) b ∧
        b.target? = some t ∧ Target.ofCompact? next.bits = some t := by
  have hlimit := mod_height_le_searchLimit prev (c.params.intervalAt prev.height)
  constructor
  · intro hpass
    obtain ⟨n, b, hb, ⟨hreal, hfound⟩ | ⟨e, herror, -⟩⟩ :=
      lastRealBlock_outcome hinterval hdescends hlimit
    · obtain ⟨t, ht, hnext⟩ := (checkMinDifficulty_eq_ok_iff hshort hfound).1 hpass
      exact ⟨n, b, t, hb, hreal, ht, hnext⟩
    · -- A search that fails cannot have passed.
      cases hpass.symm.trans (checkMinDifficulty_of_error hshort herror)
  · rintro ⟨n, b, t, hb, hreal, ht, hnext⟩
    have hmod := hb.mod_height hinterval hdescends
    have hfound := hb.lastRealBlock_of_isReal hinterval hreal (by omega : n ≤ searchLimit)
    exact (checkMinDifficulty_eq_ok_iff hshort hfound).2 ⟨t, ht, hnext⟩

/-- After a short pause the parent of a passed block must be stored. -/
theorem Reaches.checkMinDifficulty_of_missing (hshort : ¬c.isLongPause prev next = true)
    (hinterval : 0 < (c.params.intervalAt prev.height).toNat)
    (hdescends : c.Descends (c.params.intervalAt prev.height) history prev)
    (hb : c.Reaches (c.params.intervalAt prev.height) history prev n b)
    (hpassed : c.IsPassed (c.params.intervalAt prev.height) b)
    (hmissing : history b.prevBlockHash = none) :
    c.checkMinDifficulty prev next history =
      .error (.missingAncestor b.prevBlockHash (satSub b.height 1)) := by
  have hlimit := mod_height_le_searchLimit prev (c.params.intervalAt prev.height)
  have hlt := hb.lt_mod_height hinterval hdescends hpassed.not_isReal
  exact checkMinDifficulty_of_error hshort
    (hb.lastRealBlock_of_missing hinterval hpassed hmissing (by omega))

/-- On a fixed schedule with the rule for long pauses, let `next` come after the rule took effect,
between two retarget points, and let heights fall by one from link to link.

After a long pause any code passes. After a short one the search for the last real difficulty reads
no more ancestors than the height is into the interval, whatever its limit. A code passes exactly if
the search comes to a real block whose target it denotes. Where the search lacks the parent of a
passed block, that parent is the missing ancestor. -/
theorem min_difficulty_repeats_last_real_target
    (hfixed : c.params.retarget = .fixed) {rule : MinDifficultyRule}
    (hrule : c.params.minDifficulty = some rule)
    (hpoint : c.params.shouldRetarget prev.height = false) (hafter : rule.afterTime < next.time)
    (hheights : ∀ k a p, history.ancestor k prev = .ok a → history a.prevBlockHash = some p →
      p.height.toNat + 1 = a.height.toNat) :
    (next.time.toNat < prev.time.toNat ∨
        prev.time.toNat + 2 * c.params.targetSpacing.toNat < next.time.toNat →
      c.checkDifficulty prev next history = .ok ()) ∧
    (¬(next.time.toNat < prev.time.toNat ∨
        prev.time.toNat + 2 * c.params.targetSpacing.toNat < next.time.toNat) →
      (∀ n b, c.Reaches c.params.interval history prev n b →
        n ≤ prev.height.toNat % c.params.interval.toNat ∧
          (c.IsPassed c.params.interval b → n < prev.height.toNat % c.params.interval.toNat)) ∧
      (∀ limit, prev.height.toNat % c.params.interval.toNat ≤ limit →
        c.lastRealBlock c.params.interval history limit prev =
          c.lastRealBlock c.params.interval history searchLimit prev) ∧
      (c.checkDifficulty prev next history = .ok () ↔
        ∃ n b t, c.Reaches c.params.interval history prev n b ∧ c.IsReal c.params.interval b ∧
          b.target? = some t ∧ Target.ofCompact? next.bits = some t) ∧
      ∀ n b, c.Reaches c.params.interval history prev n b → c.IsPassed c.params.interval b →
        history b.prevBlockHash = none →
        c.checkDifficulty prev next history =
          .error (.missingAncestor b.prevBlockHash (satSub b.height 1))) := by
  have hinterval := c.timing_pos.2.2
  have hdescends : c.Descends c.params.interval history prev := by
    intro k a p ha _ hp
    exact hheights k a p ha.stored hp
  have hsame : c.params.intervalAt prev.height = c.params.interval := by
    rw [Params.intervalAt, hfixed]
  rw [checkDifficulty_of_rule hrule hpoint hafter, ← isLongPause_iff]
  constructor
  · intro hlong
    rw [checkMinDifficulty, if_pos hlong]
  · intro hshort
    refine ⟨fun n b hb => ⟨?_, fun hpassed => ?_⟩, fun limit hle => ?_, ?_, ?_⟩
    · have hmod := hb.mod_height hinterval hdescends
      omega
    · exact hb.lt_mod_height hinterval hdescends hpassed.not_isReal
    · exact lastRealBlock_eq_of_limit hinterval hdescends hle (mod_height_le_searchLimit prev _)
    · rw [← hsame] at hinterval hdescends ⊢
      exact checkMinDifficulty_eq_ok_iff_reaches hshort hinterval hdescends
    · intro n b hb hpassed hmissing
      rw [← hsame] at hinterval hdescends hb hpassed
      exact hb.checkMinDifficulty_of_missing hshort hinterval hdescends hpassed hmissing

/-! ### A block at the easiest target above a real one -/

/-- Dogecoin as a test network with a fixed schedule. -/
def testDogecoin : ChainParams := (dogecoin.withRetarget .fixed).withMinDifficulty (some ⟨0⟩)

/-- A block with a real difficulty, of which the parent is not known. -/
def realBlock : StoredBlock where
  hash := numberedHash 1
  header := { bareHeader 1400000000 ⟨0x1c00ffff⟩ with prevBlockHash := numberedHash 0 }
  height := 241

/-- The block after it, mined at the easiest target. -/
def easyBlock : StoredBlock where
  hash := numberedHash 2
  header := { bareHeader 1400000300 ⟨0x1e0fffff⟩ with prevBlockHash := numberedHash 1 }
  height := 242

/-- The history that knows the first of the two blocks. -/
def realHistory : History := fun hash => if hash = numberedHash 1 then some realBlock else none

/-- A minute after a block at the easiest target the code of the block below it passes. -/
theorem testDogecoin_returns_to_real_target :
    testDogecoin.checkDifficulty easyBlock (bareHeader 1400000360 ⟨0x1c00ffff⟩) realHistory =
      .ok () := by
  have hparent : realHistory easyBlock.prevBlockHash = some realBlock := if_pos rfl
  have hend : realHistory realBlock.prevBlockHash = none := if_neg (by decide +kernel)
  have hheights : ∀ k a p, realHistory.ancestor k easyBlock = .ok a →
      realHistory a.prevBlockHash = some p → p.height.toNat + 1 = a.height.toNat := by
    intro k a p ha hp
    cases k with
    | zero =>
      obtain rfl := History.ancestor_zero_eq_ok_iff.1 ha
      obtain rfl := Option.some.inj (hparent.symm.trans hp)
      rfl
    | succ k =>
      obtain ⟨q, hq, ha⟩ := History.ancestor_succ_eq_ok_iff.1 ha
      obtain rfl := Option.some.inj (hparent.symm.trans hq)
      cases k with
      | zero =>
        obtain rfl := History.ancestor_zero_eq_ok_iff.1 ha
        cases hend.symm.trans hp
      | succ k =>
        obtain ⟨r, hr, -⟩ := History.ancestor_succ_eq_ok_iff.1 ha
        cases hend.symm.trans hr
  have heasy : testDogecoin.IsPassed testDogecoin.params.interval easyBlock := by
    refine ⟨fun hgenesis => ?_, by decide +kernel, by decide +kernel⟩
    have htime := congrArg Header.time hgenesis
    rw [genesis_time] at htime
    exact absurd htime (by decide +kernel)
  have hreal : testDogecoin.IsReal testDogecoin.params.interval realBlock :=
    .inr (.inr ⟨.ofNat (0xffff * 256 ^ 25), by decide +kernel, by decide +kernel⟩)
  have hafter : (⟨0⟩ : MinDifficultyRule).afterTime < (bareHeader 1400000360 ⟨0x1c00ffff⟩).time := by
    decide +kernel
  obtain ⟨-, hshort⟩ := min_difficulty_repeats_last_real_target (c := testDogecoin) rfl rfl
    (by decide +kernel) hafter hheights
  exact (hshort (by decide +kernel)).2.2.1.2 ⟨1, realBlock, .ofNat (0xffff * 256 ^ 25),
    reaches_succ_iff.2 ⟨heasy, realBlock, hparent, reaches_zero⟩, hreal, by decide +kernel,
    by decide +kernel⟩

end HeaderRules.ChainParams
