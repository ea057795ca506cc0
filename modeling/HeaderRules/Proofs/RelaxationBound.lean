import HeaderRules.Proofs.AcceptedRun
import HeaderRules.Proofs.HeaderHex
import HeaderRules.Proofs.RatioRetarget
import HeaderRules.Proofs.Schedule
import HeaderRules.Proofs.StrictRetarget
import Mathlib.Algebra.Order.Interval.Finset.SuccPred
import Mathlib.Data.Nat.SuccPred
import Mathlib.Order.Interval.Finset.Nat

/-!
# How fast the difficulty can fall

On a chain that only retargets by ratio, the difficulty is constant inside an interval, and at the
end of one the target grows at most fourfold. Times, codes and nonces are for the producers of
blocks to choose, but none of them changes this: between two headers of an accepted run the target
grows at most by a factor of four for each end of an interval between them.
-/

namespace HeaderRules

open Outcome

/-- How many intervals end at a height above `low` and up to `high`. -/
def intervalEnds (interval low high : Nat) : Nat :=
  ((Finset.Ioc low high).filter (interval ∣ ·)).card

theorem intervalEnds_self (interval low : Nat) : intervalEnds interval low low = 0 := by
  rw [intervalEnds, Finset.Ioc_self, Finset.filter_empty, Finset.card_empty]

theorem intervalEnds_succ {interval low high : Nat} (h : low ≤ high) :
    intervalEnds interval low (high + 1) =
      intervalEnds interval low high + if interval ∣ high + 1 then 1 else 0 := by
  have hnew : high + 1 ∉ (Finset.Ioc low high).filter (interval ∣ ·) := by
    intro hmem
    have := (Finset.mem_Ioc.1 (Finset.mem_filter.1 hmem).1).2
    omega
  rw [intervalEnds, ← Finset.insert_Ioc_right_eq_Ioc_add_one h, Finset.filter_insert]
  split_ifs
  · rw [Finset.card_insert_of_notMem hnew, intervalEnds]
  · rw [Nat.add_zero, intervalEnds]

namespace ChainParams

variable {c : ChainParams} {prev : StoredBlock} {history : History}

/-! ## One header -/

/-- The code `new` follows `old` after the ends of `ends` intervals: without one it is the same, and
its target, which the chain allows, has grown at most fourfold with each. -/
structure Relaxed (c : ChainParams) (ends : Nat) (old new : CompactTarget) : Prop where
  same : ends = 0 → new = old
  bounded : ∃ s t, Target.ofCompact? old = some s ∧ Target.ofCompact? new = some t ∧
    0 < t.toNat ∧ t ≤ c.maxTarget ∧ t.toNat ≤ 4 ^ ends * s.toNat

theorem Relaxed.trans {m n : Nat} {old mid new : CompactTarget} (h₁ : Relaxed c m old mid)
    (h₂ : Relaxed c n mid new) : Relaxed c (m + n) old new := by
  obtain ⟨s, t, hs, ht, -, -, hgrowth₁⟩ := h₁.bounded
  obtain ⟨t', u, ht', hu, hpos, hmax, hgrowth₂⟩ := h₂.bounded
  obtain rfl := Option.some.inj (ht.symm.trans ht')
  refine ⟨fun hnone => ?_, s, u, hs, hu, hpos, hmax, ?_⟩
  · rw [h₂.same (by omega), h₁.same (by omega)]
  · calc u.toNat ≤ 4 ^ n * t.toNat := hgrowth₂
      _ ≤ 4 ^ n * (4 ^ m * s.toNat) := Nat.mul_le_mul_left _ hgrowth₁
      _ = 4 ^ (m + n) * s.toNat := by rw [← Nat.mul_assoc, ← pow_add, Nat.add_comm]

/-- A fixed schedule retargets exactly at the ends of its intervals. -/
theorem shouldRetarget_iff_of_fixed (hfixed : c.params.retarget = .fixed) {height : UInt32} :
    c.params.shouldRetarget height = true ↔
      c.params.interval.toNat ∣ (nextHeight height).toNat := by
  have hinterval : c.params.intervalAt height = c.params.interval := by
    rw [Params.intervalAt, hfixed]
  have hwindow : c.params.window? (nextHeight height) = none := by rw [Params.window?, hfixed]
  rw [Params.shouldRetarget_iff, hinterval, hwindow]
  simp only [Option.isSome_none, Bool.false_eq_true, false_or, and_iff_right c.timing_pos.2.2]

/-- At the end of an interval a target that passes is at most four times the previous one. -/
theorem le_four_mul_of_checkDifficulty (hfixed : c.params.retarget = .fixed)
    (hpoint : c.params.shouldRetarget prev.height = true) {next : Header}
    (hpass : c.checkDifficulty prev next history = .ok ()) :
    ∃ s t, prev.target? = some s ∧ Target.ofCompact? next.bits = some t ∧
      t.toNat ≤ 4 * s.toNat := by
  have hstrict : c.params.toleranceAt (nextHeight prev.height) = none := by
    rw [Params.toleranceAt, hfixed]
  have hclassic : c.params.timespanClamp prev.height = .classic := by
    rw [Params.timespanClamp, hfixed]
  have htimespan : c.params.targetTimespanAt prev.height = c.params.targetTimespan := by
    rw [Params.targetTimespanAt, hfixed]
  have hratio : c.computedTarget prev history = c.ratioTarget prev history := by
    rw [computedTarget, hfixed]
  -- A check that passes has computed a target, and the declared one is not easier.
  obtain ⟨required, hrequired⟩ : ∃ t, c.requiredTarget prev history = .ok t := by
    rw [checkDifficulty, if_pos hpoint] at hpass
    obtain ⟨required, hrequired, -⟩ := bind_eq_ok_iff.1 hpass
    exact ⟨required, hrequired⟩
  obtain ⟨t, ht, -, hle⟩ := exists_decoded_of_toCompact_eq
    ((checkDifficulty_eq_ok_iff hpoint hstrict hrequired next).1 hpass)
  obtain ⟨computed, hcomputed, hlimited⟩ := requiredTarget_eq_ok_iff.1 hrequired
  obtain ⟨s, hs, hfour⟩ := ratioTarget_le_four_mul hclassic
    (by rw [htimespan]; exact c.timing_pos.2.1) (hratio ▸ hcomputed)
  refine ⟨s, t, hs, ht, ?_⟩
  calc t.toNat ≤ required.toNat := Target.le_trans hle (required.mask_le next.bits)
    _ ≤ computed.toNat := hlimited.trans_le (Nat.min_le_right _ _)
    _ ≤ 4 * s.toNat := hfour

/-- A header that passes follows the code of the previous block. -/
theorem relaxed_of_checkDifficulty (hfixed : c.params.retarget = .fixed)
    (hrule : c.params.minDifficulty = none) {next : Header}
    (hwork : ∃ digest, c.verifyProofOfWork next = .ok digest)
    (hpass : c.checkDifficulty prev next history = .ok ()) :
    Relaxed c (if c.params.interval.toNat ∣ (nextHeight prev.height).toNat then 1 else 0)
      prev.bits next.bits := by
  obtain ⟨digest, hwork⟩ := hwork
  obtain ⟨u, husable, -⟩ := bind_eq_ok_iff.1 hwork
  obtain ⟨hu, hpos, hmax⟩ := c.declaredTarget_eq_ok_iff.1 husable
  by_cases hpoint : c.params.shouldRetarget prev.height = true
  · rw [if_pos ((shouldRetarget_iff_of_fixed hfixed).1 hpoint)]
    obtain ⟨s, t, hs, ht, hle⟩ := le_four_mul_of_checkDifficulty hfixed hpoint hpass
    obtain rfl := Option.some.inj (hu.symm.trans ht)
    exact ⟨fun hone => absurd hone Nat.one_ne_zero, s, u, hs, hu, hpos, hmax, by rwa [pow_one]⟩
  · rw [if_neg (mt (shouldRetarget_iff_of_fixed hfixed).2 hpoint)]
    have hinactive : ¬c.activeMinDifficulty next = true := by
      rw [activeMinDifficulty, hrule]
      exact Bool.false_ne_true
    have hsame : next.bits = prev.bits := by
      rw [checkDifficulty, if_neg hpoint, if_neg hinactive] at hpass
      by_contra hne
      rw [if_pos hne] at hpass
      cases hpass
    exact ⟨fun _ => hsame, u, u, hsame ▸ hu, hu, hpos, hmax, by rw [pow_zero, Nat.one_mul]⟩

end ChainParams

/-! ## A whole run -/

namespace HeaderRun

variable {c : ChainParams} {start : UInt32}

/-- The tip of stored headers is the last of them. -/
theorem exists_last_of_tip {headers : List Header} {tip : StoredBlock}
    (htip : (blocks c start headers).getLast? = some tip) :
    ∃ last, headers[headers.length - 1]? = some last ∧
      tip = blockAt c start (headers.length - 1) last := by
  rw [List.getLast?_eq_getElem?, blocks, List.length_mapIdx, List.getElem?_mapIdx,
    Option.map_eq_some_iff] at htip
  obtain ⟨last, hlast, rfl⟩ := htip
  exact ⟨last, hlast, rfl⟩

/-- Every header of an accepted list follows every earlier one. -/
theorem Accepted.relaxed (hfixed : c.params.retarget = .fixed)
    (hrule : c.params.minDifficulty = none) {headers : List Header}
    (haccepted : Accepted c start headers)
    (hheights : start.toNat + (headers.length - 1) ≤ 0xffffffff) {i j : Nat} {a b : Header}
    (hij : i < j) (ha : headers[i]? = some a) (hb : headers[j]? = some b) :
    ChainParams.Relaxed c
      (intervalEnds c.params.interval.toNat (start.toNat + i) (start.toNat + j)) a.bits b.bits := by
  induction haccepted generalizing j b with
  | first h =>
    have hj := (List.getElem?_eq_some_iff.1 hb).1
    rw [List.length_singleton] at hj
    omega
  | @next headers prev h earlier tip link work difficulty ih =>
    have hj := (List.getElem?_eq_some_iff.1 hb).1
    rw [List.length_append, List.length_singleton] at hj hheights
    rw [List.getElem?_append_left (by omega)] at ha
    have ih := @ih (by omega)
    rcases Nat.lt_or_ge j headers.length with hlt | hge
    · -- Both headers are earlier ones.
      rw [List.getElem?_append_left hlt] at hb
      exact ih hij ha hb
    · -- The later header is the new one, which follows the last of the earlier ones.
      obtain rfl : j = headers.length := by omega
      obtain rfl : h = b := by
        rw [List.getElem?_concat_length] at hb
        exact Option.some.inj hb
      obtain ⟨last, hlast, rfl⟩ := exists_last_of_tip tip
      have hstep := ChainParams.relaxed_of_checkDifficulty hfixed hrule work difficulty
      have hnext : (nextHeight (blockAt c start (headers.length - 1) last).height).toNat =
          start.toNat + (headers.length - 1) + 1 := by
        rw [blockAt, nextHeight_heightAt, toNat_heightAt]
        omega
      have hlength : start.toNat + headers.length = start.toNat + (headers.length - 1) + 1 := by
        omega
      rw [hnext] at hstep
      rw [hlength, intervalEnds_succ (by omega)]
      rcases Nat.lt_or_ge i (headers.length - 1) with hi | hi
      · exact (ih hi ha hlast).trans hstep
      · obtain rfl : i = headers.length - 1 := by omega
        obtain rfl := Option.some.inj (ha.symm.trans hlast)
        rw [intervalEnds_self, Nat.zero_add]
        exact hstep

/-- On a fixed schedule without a rule for long pauses, let a run of headers verify whose heights do
not reach beyond the greatest one. If no interval ends between two of its headers, the later one
repeats the code of the earlier one. In any case both codes denote targets, the later one a target
that the chain allows and that is at most `4 ^ k` times the earlier one, where `k` is the number of
intervals that end in between. -/
theorem verified_run_relaxes_at_most_fourfold (hfixed : c.params.retarget = .fixed)
    (hrule : c.params.minDifficulty = none) {texts : List String} {run : HeaderRun}
    (hverify : verify c start texts = .ok run)
    (hheights : start.toNat + (texts.length - 1) ≤ 0xffffffff) :
    ∃ headers, texts.mapM Header.ofHex = .ok headers ∧ headers.length = texts.length ∧
      ∀ i j a b, i < j → headers[i]? = some a → headers[j]? = some b →
        (intervalEnds c.params.interval.toNat (start.toNat + i) (start.toNat + j) = 0 →
          b.bits = a.bits) ∧
        ∃ s t, Target.ofCompact? a.bits = some s ∧ Target.ofCompact? b.bits = some t ∧
          0 < t.toNat ∧ t ≤ c.maxTarget ∧
          t.toNat ≤
            4 ^ intervalEnds c.params.interval.toNat (start.toNat + i) (start.toNat + j) *
              s.toNat := by
  cases texts with
  | nil => cases hverify
  | cons first rest =>
    obtain ⟨headers, hdecodes, -, haccepted⟩ := accepted_of_verify hverify
    have hlength := length_of_mapM hdecodes
    refine ⟨headers, hdecodes, hlength, fun i j a b hij ha hb => ?_⟩
    have hrelaxed := haccepted.relaxed hfixed hrule (hlength ▸ hheights) hij ha hb
    exact ⟨hrelaxed.same, hrelaxed.bounded⟩

/-! ### Three headers and one end of an interval -/

/-- Dogecoin with little work, a fixed schedule and intervals of two blocks. -/
def lightDogecoin : ChainParams where
  params := { Params.dogecoin with
    powHash := .sha256d
    targetTimespan := 300
    interval := 2
    maxTarget := ⟨0x207fffff⟩
    retarget := .fixed }
  maxTarget := .ofNat (0x7fffff * 256 ^ 29)
  genesis := ChainParams.dogecoin.genesis
  validated := Params.validate_eq_ok_iff.2 ⟨rfl, rfl, by decide +kernel, rfl,
    (Params.validate_eq_ok_iff.1 ChainParams.dogecoin.validated).2.2.2.2⟩

/-- A header whose previous block has a given number for its identity. -/
def linkedHeader (prev : Nat) (time : UInt32) (bits : CompactTarget) (nonce : UInt32) : Header :=
  { bareHeader time bits with prevBlockHash := numberedHash prev, nonce := nonce }

/-- The header that the list starts with. -/
def lightFirst : Header := linkedHeader 0 1400000000 ⟨0x1f7fffff⟩ 0

/-- The next header, which came late and ends the first interval. -/
def lightSecond : Header :=
  linkedHeader 0x6e123df8572a2fcf27103028224021d1bc7c03cbe2f02b6131dfae80164cbadb 1400010000
    ⟨0x1f7fffff⟩ 855

/-- The header after it, with the easiest target that may follow. -/
def lightThird : Header :=
  linkedHeader 0x007f89789c1a37a3677ed11206ebd34ebd730be283b2fc33ef70bf1fd31d8b80 1400010060
    ⟨0x2001ffff⟩ 137

/-- Each of the three headers passes its tests on top of those before it. -/
theorem accepted_lightHeaders : Accepted lightDogecoin 0 [lightFirst, lightSecond, lightThird] := by
  have hfirst : lightDogecoin.identity lightFirst = lightSecond.prevBlockHash := by decide +kernel
  have hsecond : lightDogecoin.identity lightSecond = lightThird.prevBlockHash := by decide +kernel
  have hblocks : blocks lightDogecoin 0 [lightFirst, lightSecond] =
      [⟨lightSecond.prevBlockHash, lightFirst, 0⟩, ⟨lightThird.prevBlockHash, lightSecond, 1⟩] := by
    rw [← hfirst, ← hsecond]
    rfl
  have hwork : ∀ h ∈ [lightSecond, lightThird],
      (lightDogecoin.verifyProofOfWork h).isOk = true := by
    decide +kernel
  have hdigest : ∀ h ∈ [lightSecond, lightThird],
      ∃ digest, lightDogecoin.verifyProofOfWork h = .ok digest := by
    intro h hh
    rcases ok_or_error (lightDogecoin.verifyProofOfWork h) with hok | ⟨e, herror⟩
    · exact hok
    · have := hwork h hh
      rw [herror] at this
      cases this
  have htwo : Accepted lightDogecoin 0 [lightFirst, lightSecond] :=
    .next (.first lightFirst) rfl hfirst.symm (hdigest _ (by simp)) (by decide +kernel)
  refine .next htwo rfl hsecond.symm (hdigest _ (by simp)) ?_
  rw [hblocks]
  decide +kernel

/-- The three headers verify, and the target of the last one is four times that of the first, less
what its code cannot carry. -/
theorem lightDogecoin_relaxes_at_most_fourfold :
    (∃ run, verify lightDogecoin 0 ([lightFirst, lightSecond, lightThird].map Header.hex) =
      .ok run) ∧
    ∃ s t, Target.ofCompact? lightFirst.bits = some s ∧
      Target.ofCompact? lightThird.bits = some t ∧ t.toNat ≤ 4 ^ 1 * s.toNat := by
  have hdecodes := Header.mapM_ofHex_hex [lightFirst, lightSecond, lightThird]
  obtain ⟨run, hrun, -⟩ := verify_of_accepted hdecodes accepted_lightHeaders
  obtain ⟨headers, hheaders, -, hall⟩ :=
    verified_run_relaxes_at_most_fourfold rfl rfl hrun (by decide +kernel)
  obtain rfl := Except.ok.inj (hdecodes.symm.trans hheaders)
  have hends : intervalEnds lightDogecoin.params.interval.toNat ((0 : UInt32).toNat + 0)
      ((0 : UInt32).toNat + 2) = 1 := by
    decide +kernel
  obtain ⟨-, s, t, hs, ht, -, -, hle⟩ := hall 0 2 _ _ (by decide) rfl rfl
  rw [hends] at hle
  exact ⟨⟨run, hrun⟩, s, t, hs, ht, hle⟩

end HeaderRun

end HeaderRules
