import HeaderRules.Proofs.Ancestry
import HeaderRules.Proofs.Schedule
import HeaderRules.Retarget.Difficulty

/-!
# What a gravity-well walk reads

A walk sees of a block its height, its time and its code, and of the history no more than the blocks
that it reads one after the other. Two walks that read the same data come to the same result
(`walk_eq_of_reads`), and where a walk fails, a block that it read has a target that does not decode
(`exists_visit_error_of_walk`). All three algorithms are such walks
(`Gravity.Algorithm.target_eq`).
-/

namespace HeaderRules

open Outcome

/-- Two blocks have the data in common that a gravity-well algorithm reads. -/
structure StoredBlock.SameData (a b : StoredBlock) : Prop where
  height : a.height = b.height
  time : a.time = b.time
  bits : a.bits = b.bits

namespace StoredBlock.SameData

variable {a b : StoredBlock}

protected theorem refl (a : StoredBlock) : SameData a a := ⟨rfl, rfl, rfl⟩

theorem target? (h : SameData a b) : a.target? = b.target? := by
  rw [StoredBlock.target?, h.bits, StoredBlock.target?]

theorem decodedTarget (h : SameData a b) : a.decodedTarget = b.decodedTarget := by
  rw [StoredBlock.decodedTarget, h.target?, h.bits, h.height, StoredBlock.decodedTarget]

end StoredBlock.SameData

namespace WindowBounds

variable {window : WindowBounds}

theorem limit_eq (hmax : window.max ≠ 0) : window.limit = window.max.toNat := by
  rw [limit, if_neg hmax]

theorem toNat_max_pos (hmax : window.max ≠ 0) : 0 < window.max.toNat :=
  Nat.pos_of_ne_zero fun h => hmax (UInt64.toNat_inj.1 h)

end WindowBounds

namespace Gravity

open StoredBlock

/-! ## Walks -/

section

variable {σ : Type} {visit : σ → StoredBlock → Except VerificationError (Visit σ)}
  {S T : History} {a b : StoredBlock} {limit : Nat} {s : σ}

/-- The last step of a walk is taken from where the others led. -/
theorem read_succ' (history : History) (b : StoredBlock) (k : Nat) :
    read history b (k + 1) = stepBack history (read history b k) := rfl

/-- The first step of a walk can be taken before the others. -/
theorem read_succ (history : History) (b : StoredBlock) (k : Nat) :
    read history b (k + 1) = read history (stepBack history b) k := by
  induction k with
  | zero => rfl
  | succ k ih => rw [read_succ', ih, read_succ']

/-- Once its parent is missing, a block is read for ever. -/
theorem read_eq_of_gap {history : History} {prev : StoredBlock} {gap : Nat}
    (hgap : history (read history prev gap).prevBlockHash = none) (k : Nat) :
    read history prev k = read history prev (min k gap) := by
  induction k with
  | zero => rw [Nat.zero_min]
  | succ k ih =>
    rcases Nat.lt_or_ge k gap with hlt | hge
    · rw [Nat.min_eq_left hlt]
    · rw [read_succ', ih, Nat.min_eq_right hge, Nat.min_eq_right (by omega), stepBack, hgap]
      rfl

/-- A lone block is read for ever. -/
theorem read_of_missing {history : History} {b : StoredBlock}
    (hmissing : history b.prevBlockHash = none) (k : Nat) : read history b k = b := by
  have hfirst : history (read history b 0).prevBlockHash = none := hmissing
  rw [read_eq_of_gap hfirst, Nat.min_zero]
  rfl

/-- A visitor that sees of a block only its data, and that fails only on a target that does not
decode. -/
structure IsReader (visit : σ → StoredBlock → Except VerificationError (Visit σ)) : Prop where
  same : ∀ s a b, SameData a b → visit s a = visit s b
  undecodable : ∀ s b e, visit s b = .error e → b.decodedTarget = .error e

/-- Walks that read the same data have the same result, over whatever histories. -/
theorem walk_eq_of_reads (hvisit : IsReader visit)
    (hreads : ∀ k < limit, SameData (read S a k) (read T b k)) :
    walk visit S limit a s = walk visit T limit b s := by
  induction limit generalizing a b s with
  | zero => rfl
  | succ limit ih =>
    have hfirst : SameData a b := hreads 0 limit.succ_pos
    rw [walk, walk, hfirst.height, hvisit.same s a b hfirst]
    split_ifs
    · rfl
    · rcases visit s b with e | (state | state)
      · rfl
      · refine ih fun k hk => ?_
        rw [← read_succ, ← read_succ]
        exact hreads (k + 1) (by omega)
      · rfl

/-- A walk fails where its visitor fails on a block that it reads. -/
theorem exists_visit_error_of_walk {e : VerificationError}
    (h : walk visit S limit a s = .error e) :
    ∃ k < limit, ∃ state, visit state (read S a k) = .error e := by
  induction limit generalizing a s with
  | zero =>
    rw [walk] at h
    cases h
  | succ limit ih =>
    rw [walk] at h
    split_ifs at h
    cases hvisit : visit s a with
    | error e' =>
      rw [hvisit] at h
      obtain rfl := Except.error.inj h
      exact ⟨0, limit.succ_pos, s, hvisit⟩
    | ok outcome =>
      rw [hvisit] at h
      cases outcome with
      | stop state => cases h
      | next state =>
        obtain ⟨k, hk, state', hfails⟩ := ih h
        exact ⟨k + 1, by omega, state', by rw [read_succ]; exact hfails⟩

end

/-! ## The three algorithms -/

/-- What `compute` makes of a block like `prev` is the easiest target if there is too little history
for the window, and else the result of a walk over the window. -/
def IsWalkOver (compute : StoredBlock → History → Except VerificationError Target)
    (prev : StoredBlock) (window : WindowBounds) (easiest : Target) : Prop :=
  ∃ (σ : Type) (visit : σ → StoredBlock → Except VerificationError (Visit σ)) (initial : σ)
    (result : σ → Target), IsReader visit ∧
      ∀ b history, SameData b prev → compute b history =
        if tooShort prev window then .ok easiest
        else (walk visit history window.limit b initial).map result

theorem IsWalkOver.congr {compute other : StoredBlock → History → Except VerificationError Target}
    {prev : StoredBlock} {window : WindowBounds} {easiest : Target}
    (h : IsWalkOver compute prev window easiest)
    (heq : ∀ b history, SameData b prev → other b history = compute b history) :
    IsWalkOver other prev window easiest := by
  obtain ⟨σ, visit, initial, result, hreader, hresult⟩ := h
  refine ⟨σ, visit, initial, result, hreader, fun b history hb => ?_⟩
  rw [heq b history hb, hresult b history hb]

theorem tooShort_eq {a b : StoredBlock} (h : SameData a b) (window : WindowBounds) :
    tooShort a window = tooShort b window := by
  rw [tooShort, h.height, tooShort]

theorem Kimoto.isReader_visit (newest spacing : UInt32) (minimum : UInt64) :
    IsReader (Kimoto.visit newest spacing minimum) where
  same s a b h := by simp only [visit, h.decodedTarget, h.time, h.height]
  undecodable s b e h := by
    unfold visit at h
    cases hb : b.decodedTarget with
    | ok target => exact nomatch hb ▸ h
    | error e' =>
      rw [hb] at h
      exact congrArg Except.error (Except.error.inj h)

/-- A visit that decodes the target only of some blocks fails on none of the others. -/
theorem decodedTarget_of_error {σ : Type} {p : Prop} [Decidable p] {b : StoredBlock}
    {read : Target → Visit σ} {skip : Visit σ} {e : VerificationError}
    (h : (if p then b.decodedTarget >>= fun target => .ok (read target) else .ok skip) =
      .error e) : b.decodedTarget = .error e := by
  by_cases hp : p
  · rw [if_pos hp] at h
    rcases bind_eq_error_iff.1 h with htarget | ⟨target, -, hnext⟩
    · exact htarget
    · exact nomatch hnext
  · rw [if_neg hp] at h
    exact nomatch h

theorem Wave.isReader_visit (minimum : UInt64) : IsReader (Wave.visit minimum) where
  same s a b h := by simp only [visit, h.decodedTarget, h.time]
  undecodable s b e h := by
    simp only [visit] at h
    exact decodedTarget_of_error h

theorem Wave3.isReader_visit (minimum : UInt64) : IsReader (Wave3.visit minimum) where
  same s a b h := by simp only [visit, h.decodedTarget, h.time]
  undecodable s b e h := by
    simp only [visit] at h
    exact decodedTarget_of_error h

/-- The gravity-well algorithms. -/
inductive Algorithm where
  | kimoto
  | wave
  | wave3
deriving DecidableEq, Repr

namespace Algorithm

/-- What an algorithm knows after some blocks. -/
def State : Algorithm → Type
  | kimoto => Kimoto.State
  | wave => Wave.State
  | wave3 => Wave3.State

/-- Before the first block. -/
def initial : (w : Algorithm) → w.State
  | kimoto => Kimoto.State.initial
  | wave => Wave.State.initial
  | wave3 => Wave3.State.initial

/-- Reads one block of a walk that started from a block of the time `newest`. -/
def visit (w : Algorithm) (newest spacing : UInt32) (minimum : UInt64) :
    w.State → StoredBlock → Except VerificationError (Visit w.State) :=
  match w with
  | kimoto => Kimoto.visit newest spacing minimum
  | wave => Wave.visit minimum
  | wave3 => Wave3.visit minimum

/-- The target that the last state of a walk gives. -/
def result (w : Algorithm) (spacing : UInt32) : w.State → Target :=
  match w with
  | kimoto => fun s => scale s.average s.actual s.expected
  | wave => fun s =>
    if s.intervals.averaged = 0 ∨ s.intervals.summed = 0 then s.average
    else scale s.average (Wave.timespans s spacing).1 (Wave.timespans s spacing).2
  | wave3 => fun s =>
    scale s.average (min (max s.actual (signedCount s.count * seconds spacing / 3))
      (signedCount s.count * seconds spacing * 3)) (signedCount s.count * seconds spacing)

/-- The target of the block after `prev`. -/
def target (w : Algorithm) : StoredBlock → History → UInt32 → WindowBounds → Target →
    Except VerificationError Target :=
  match w with
  | kimoto => Kimoto.target
  | wave => Wave.target
  | wave3 => Wave3.target

variable (w : Algorithm) (prev : StoredBlock) (spacing : UInt32) (window : WindowBounds)
  (easiest : Target)

theorem isReader_visit (newest : UInt32) (minimum : UInt64) :
    IsReader (w.visit newest spacing minimum) := by
  cases w with
  | kimoto => exact Kimoto.isReader_visit newest spacing minimum
  | wave => exact Wave.isReader_visit minimum
  | wave3 => exact Wave3.isReader_visit minimum

/-- All three algorithms are walks over the window. -/
theorem target_eq (history : History) :
    w.target prev history spacing window easiest =
      if tooShort prev window then .ok easiest
      else (walk (w.visit prev.time spacing window.min) history window.limit prev w.initial).map
        (w.result spacing) := by
  cases w with
  | kimoto => rfl
  | wave => rfl
  | wave3 => exact Wave3.target_eq_walk prev history spacing window easiest

theorem isWalkOver : IsWalkOver (w.target · · spacing window easiest) prev window easiest := by
  refine ⟨w.State, w.visit prev.time spacing window.min, w.initial, w.result spacing,
    w.isReader_visit _ _ _, fun b history hb => ?_⟩
  show w.target b history spacing window easiest = _
  rw [target_eq, tooShort_eq hb, hb.time]

end Algorithm

end Gravity

/-! ## The target of a height with a window -/

namespace ChainParams

open Gravity StoredBlock

variable {c : ChainParams} {prev : StoredBlock}

/-- Where a gravity-well algorithm is in force, it walks over the window of the height. -/
theorem isWalkOver_of_window {window : WindowBounds}
    (hwindow : c.params.window? (nextHeight prev.height) = some window) :
    IsWalkOver c.computedTarget prev window c.maxTarget := by
  cases hretarget : c.params.retarget with
  | fixed => simp [Params.window?, hretarget] at hwindow
  | varying => simp [Params.window?, hretarget] at hwindow
  | gravityWell schedule =>
    -- After any block of this height the same algorithm is in force.
    simp only [Params.window?, hretarget] at hwindow
    cases hphase : schedule.phase (nextHeight prev.height) with
    | ratio => simp [hphase] at hwindow
    | kimotoGravityWell =>
      simp only [hphase, Option.some.injEq] at hwindow
      subst hwindow
      refine (Algorithm.kimoto.isWalkOver prev c.params.targetSpacing schedule.kgwWindow
        c.maxTarget).congr fun b history hb => ?_
      simp only [computedTarget, hretarget, hb.height, hphase, Algorithm.target]
    | darkGravityWave =>
      simp only [hphase, Option.some.injEq] at hwindow
      subst hwindow
      refine (Algorithm.wave.isWalkOver prev c.params.targetSpacing schedule.dgwWindow
        c.maxTarget).congr fun b history hb => ?_
      simp only [computedTarget, hretarget, hb.height, hphase, Algorithm.target]
    | darkGravityWave3 =>
      simp only [hphase, Option.some.injEq] at hwindow
      subst hwindow
      refine (Algorithm.wave3.isWalkOver prev c.params.targetSpacing schedule.dgw3Window
        c.maxTarget).congr fun b history hb => ?_
      simp only [computedTarget, hretarget, hb.height, hphase, Algorithm.target]

/-- Where there is no window, the target is computed by ratio. -/
theorem computedTarget_of_no_window
    (hwindow : c.params.window? (nextHeight prev.height) = none) (history : History) :
    c.computedTarget prev history = c.ratioTarget prev history := by
  cases hretarget : c.params.retarget with
  | fixed => rw [computedTarget, hretarget]
  | varying => rw [computedTarget, hretarget]
  | gravityWell schedule =>
    simp only [Params.window?, hretarget] at hwindow
    cases hphase : schedule.phase (nextHeight prev.height) with
    | ratio => simp only [computedTarget, hretarget, hphase]
    | _ => simp [hphase] at hwindow

end ChainParams

end HeaderRules
