import HeaderRules.Proofs.RetargetCheck

/-!
# Retarget points without a tolerance

The code to declare is compared at the precision of the declared code, so the side that declares
also chooses the window. Whatever it chooses, no code of an easier target passes, and the code of
the required target always does. It need not be the only one: a window that lies below the leading
digits of the required target drops them, and then the code of a *harder* target passes. The module
says exactly which targets have such a window.
-/

namespace HeaderRules.ChainParams

open Outcome

variable {c : ChainParams} {prev : StoredBlock} {history : History} {t : Target}

/-! ## Retargets of Dogecoin after one gap -/

/-- A block of Dogecoin, to be followed by one with the same code after a gap. -/
def gapParent (bits : CompactTarget) : StoredBlock where
  hash := default
  header := bareHeader 1400000000 bits
  height := 149999

/-- The block that follows it, the last one before a retarget. -/
def gapTip (bits : CompactTarget) (gap : UInt32) : StoredBlock where
  hash := default
  header := bareHeader (1400000000 + gap) bits
  height := 150000

/-- The history that knows nothing but the first of the two blocks. -/
def gapHistory (bits : CompactTarget) : History := fun _ => some (gapParent bits)

/-! ## The code of the required target, and no easier one -/

/-- The code of a positive target up to the maximum is usable. -/
theorem declaredTarget_toCompact (hpos : 0 < t.toNat) (hle : t ≤ c.maxTarget) :
    c.declaredTarget t.toCompact = .ok (t.maskToPrecisionOf t.toCompact) :=
  c.declaredTarget_eq_ok_iff.2 ⟨t.ofCompact?_toCompact, Target.mask_toCompact_pos hpos,
    Target.le_trans (t.mask_le t.toCompact) hle⟩

/-- The code of a target is canonical. -/
theorem exists_decoded_of_toCompact_eq {u : Target} {bits : CompactTarget}
    (h : u.toCompact = bits) :
    ∃ d, Target.ofCompact? bits = some d ∧ d.toCompact = bits ∧ d ≤ u := by
  subst h
  exact ⟨_, u.ofCompact?_toCompact, u.toCompact_mask_toCompact, u.mask_le _⟩

/-- The code of the required target always passes, and whatever passes is the canonical code of a
target that is not easier than the required one. -/
theorem strict_retarget_accepts_required_and_nothing_easier
    (hpoint : c.params.shouldRetarget prev.height = true)
    (hstrict : c.params.toleranceAt (nextHeight prev.height) = none)
    (ht : c.requiredTarget prev history = .ok t) :
    (∀ next : Header, next.bits = t.toCompact →
      c.checkDifficulty prev next history = .ok () ∧
        (0 < t.toNat → ∃ d, c.declaredTarget next.bits = .ok d)) ∧
      ∀ next : Header, c.checkDifficulty prev next history = .ok () →
        ∃ d, Target.ofCompact? next.bits = some d ∧ d.toCompact = next.bits ∧ d ≤ t := by
  refine ⟨fun next hbits => ⟨?_, fun hpos => ?_⟩, fun next hpass => ?_⟩
  · rw [checkDifficulty_eq_ok_iff hpoint hstrict ht, hbits]
    exact t.toCompact_mask_toCompact
  · rw [hbits]
    exact ⟨_, declaredTarget_toCompact hpos (requiredTarget_le ht)⟩
  · rw [checkDifficulty_eq_ok_iff hpoint hstrict ht] at hpass
    obtain ⟨d, hdecode, hcanonical, hle⟩ := exists_decoded_of_toCompact_eq hpass
    exact ⟨d, hdecode, hcanonical, Target.le_trans hle (t.mask_le next.bits)⟩

/-- After a gap of ten seconds Dogecoin requires `0xffff · 256 ^ 25 · 54 / 60`, and the code of that
passes. -/
theorem dogecoin_accepts_required_after_short_gap :
    dogecoin.checkDifficulty (gapTip ⟨0x1c00ffff⟩ 10) (bareHeader 1400000070 ⟨0x1c00e665⟩)
        (gapHistory ⟨0x1c00ffff⟩) = .ok () ∧
      ∃ d, dogecoin.declaredTarget ⟨0x1c00e665⟩ = .ok d := by
  have ht : dogecoin.requiredTarget (gapTip ⟨0x1c00ffff⟩ 10) (gapHistory ⟨0x1c00ffff⟩) =
      .ok (.ofNat (0xe66580 * 256 ^ 24)) := by decide +kernel
  have hcode : (⟨0x1c00e665⟩ : CompactTarget) = (Target.ofNat (0xe66580 * 256 ^ 24)).toCompact := by
    decide +kernel
  obtain ⟨hpass, husable⟩ :=
    (strict_retarget_accepts_required_and_nothing_easier (by decide +kernel) rfl ht).1
      (bareHeader 1400000070 ⟨0x1c00e665⟩) hcode
  exact ⟨hpass, husable (by decide +kernel)⟩

/-! ## Other codes that pass -/

/-- The digits below the exponent of a code that passes have the size of that code. -/
theorem isCodeSize_of_passes {bits : CompactTarget}
    (hpass : (t.maskToPrecisionOf bits).toCompact = bits) :
    IsCodeSize bits.exponent (t.toNat % 256 ^ bits.exponent) := by
  rw [← isCodeSize_digitWindow_iff, ← Target.toNat_maskToPrecisionOf,
    ← Target.exponent_toCompact_eq_iff, hpass]

/-- A code that passes is the one of the target if no digit of the target stands above its
exponent. -/
theorem eq_toCompact_iff_of_passes {bits : CompactTarget}
    (hpass : (t.maskToPrecisionOf bits).toCompact = bits) :
    bits = t.toCompact ↔ t.toNat < 256 ^ bits.exponent := by
  constructor
  · intro heq
    have hown := (t.exponent_toCompact_le_iff bits.exponent).1 (by rw [heq])
    omega
  · intro hlt
    have hmod : t.toNat % 256 ^ bits.exponent = t.toNat := Nat.mod_eq_of_lt hlt
    have hsize := isCodeSize_of_passes hpass
    rw [hmod] at hsize
    have hcode := Target.toCompact_eq_of_window (t.toNat_maskToPrecisionOf bits) hmod.symm hsize
    exact hpass.symm.trans hcode

/-- The three digits below position `e` of a target, where they have that size, make a usable code
that passes. -/
theorem exists_code_of_window {e : Nat} (hle : t ≤ c.maxTarget) (he : 0 < e)
    (hsize : IsCodeSize e (t.toNat % 256 ^ e)) :
    ∃ bits : CompactTarget, bits.exponent = e ∧ (∃ d, c.declaredTarget bits = .ok d) ∧
      (t.maskToPrecisionOf bits).toCompact = bits := by
  -- The window is itself a target, and its code puts the digits back where they were.
  have hwindow := digitWindow_le e t.toNat
  obtain ⟨u, hu⟩ : ∃ u : Target, u.toNat = digitWindow e t.toNat :=
    ⟨.ofNat (digitWindow e t.toNat), Nat.mod_eq_of_lt (hwindow.trans_lt t.toNat_lt)⟩
  have husize : IsCodeSize e u.toNat := by
    rw [hu]
    exact (isCodeSize_digitWindow_iff e t.toNat).2 hsize
  have hpos : 0 < u.toNat := by
    have := husize.2 0 he
    omega
  have hexp : u.toCompact.exponent = e := (u.exponent_toCompact_eq_iff e).2 husize
  have hmask : t.maskToPrecisionOf u.toCompact = u := by
    rw [← Target.toNat_inj, Target.toNat_maskToPrecisionOf, hexp, hu]
  have hut : u ≤ t := by
    show u.toNat ≤ t.toNat
    omega
  exact ⟨u.toCompact, hexp, ⟨_, declaredTarget_toCompact hpos (Target.le_trans hut hle)⟩,
    congrArg Target.toCompact hmask⟩

/-- The code of the required target is the only usable one that passes exactly if the target has no
window below its leading digits: a position that it reaches past, where the digits below that
position, taken alone, have the size of a code. A code that passes is the one of the target exactly
if the target does not reach past its exponent, and a code that does not pass is a mismatch. -/
theorem strict_retarget_unique_iff
    (hpoint : c.params.shouldRetarget prev.height = true)
    (hstrict : c.params.toleranceAt (nextHeight prev.height) = none)
    (ht : c.requiredTarget prev history = .ok t) :
    ((∀ (next : Header) (d : Target), c.declaredTarget next.bits = .ok d →
        c.checkDifficulty prev next history = .ok () → next.bits = t.toCompact) ↔
      ∀ e, 0 < e → 256 ^ e ≤ t.toNat → ¬IsCodeSize e (t.toNat % 256 ^ e)) ∧
    (∀ next : Header, c.checkDifficulty prev next history = .ok () →
      (next.bits = t.toCompact ↔ t.toNat < 256 ^ next.bits.exponent)) ∧
    ∀ next : Header, c.checkDifficulty prev next history ≠ .ok () →
      c.checkDifficulty prev next history = .error (.difficultyMismatch (nextHeight prev.height)
        (t.maskToPrecisionOf next.bits).toCompact next.bits) := by
  have hiff := checkDifficulty_eq_ok_iff hpoint hstrict ht
  refine ⟨⟨fun hunique e he hreach hsize => ?_, fun hnone next d husable hpass => ?_⟩,
    fun next hpass => eq_toCompact_iff_of_passes ((hiff next).1 hpass), fun next hfail => ?_⟩
  · -- A window below the leading digits has a code of its own, which passes.
    obtain ⟨bits, hexp, ⟨d, husable⟩, hpass⟩ :=
      exists_code_of_window (requiredTarget_le ht) he hsize
    have heq : bits = t.toCompact :=
      hunique { prev.header with bits := bits } d husable ((hiff _).2 hpass)
    have hlt := (eq_toCompact_iff_of_passes hpass).1 heq
    rw [hexp] at hlt
    omega
  · -- Any other code that passes is the code of such a window.
    rw [hiff] at hpass
    by_contra hne
    have hreach := mt (eq_toCompact_iff_of_passes hpass).2 hne
    exact hnone next.bits.exponent (c.unit_le_of_declaredTarget husable).1
      (Nat.le_of_not_lt hreach) (isCodeSize_of_passes hpass)
  · rw [ne_eq, hiff] at hfail
    rw [checkDifficulty_eq_compareDeclared hpoint ht, compareDeclared_of_strict hstrict,
      if_neg hfail]

/-- After a gap of two minutes Dogecoin requires its easiest target, which has only one code. -/
theorem dogecoin_refuses_other_code_after_long_gap :
    dogecoin.checkDifficulty (gapTip ⟨0x1e0fffff⟩ 120) (bareHeader 1400000180 ⟨0x1d00ffff⟩)
        (gapHistory ⟨0x1e0fffff⟩) =
      .error (.difficultyMismatch 150001 ⟨0x1e00ffff⟩ ⟨0x1d00ffff⟩) := by
  have ht : dogecoin.requiredTarget (gapTip ⟨0x1e0fffff⟩ 120) (gapHistory ⟨0x1e0fffff⟩) =
      .ok (.ofNat (0x0fffff * 256 ^ 27)) := by decide +kernel
  obtain ⟨hunique, -, hmismatch⟩ := strict_retarget_unique_iff (by decide +kernel) rfl ht
  have hsizes : ∀ e < 30, 0 < e → ¬IsCodeSize e ((0x0fffff * 256 ^ 27) % 256 ^ e) := by
    decide +kernel
  have husable : dogecoin.declaredTarget ⟨0x1d00ffff⟩ = .ok (.ofNat (0x00ffff * 256 ^ 26)) := by
    decide +kernel
  refine (hmismatch (bareHeader 1400000180 ⟨0x1d00ffff⟩) fun hpass => ?_).trans (by decide +kernel)
  refine absurd (hunique.2 (fun e he hreach => ?_) _ _ husable hpass) (by decide +kernel)
  have hlt : e < 30 := lt_of_pow_256_lt
    (hreach.trans_lt (by decide +kernel : (0x0fffff * 256 ^ 27) < 256 ^ 30))
  exact hsizes e hlt he

/-- The digits below position 26 of the target that Dogecoin requires after a gap of ten seconds
make the code `0x1a658000`. It passes although the code of the target is `0x1c00e665`. -/
theorem dogecoin_accepts_lower_window_after_short_gap :
    dogecoin.params.shouldRetarget (gapTip ⟨0x1c00ffff⟩ 10).height = true ∧
      dogecoin.params.toleranceAt (nextHeight (gapTip ⟨0x1c00ffff⟩ 10).height) = none ∧
      dogecoin.requiredTarget (gapTip ⟨0x1c00ffff⟩ 10) (gapHistory ⟨0x1c00ffff⟩) =
        .ok (.ofNat (0xe66580 * 256 ^ 24)) ∧
      dogecoin.declaredTarget ⟨0x1a658000⟩ = .ok (.ofNat (0x658000 * 256 ^ 23)) ∧
      dogecoin.checkDifficulty (gapTip ⟨0x1c00ffff⟩ 10) (bareHeader 1400000070 ⟨0x1a658000⟩)
        (gapHistory ⟨0x1c00ffff⟩) = .ok () ∧
      (Target.ofNat (0xe66580 * 256 ^ 24)).toCompact = ⟨0x1c00e665⟩ := by
  refine ⟨by decide +kernel, rfl, by decide +kernel, by decide +kernel, by decide +kernel,
    by decide +kernel⟩

end HeaderRules.ChainParams
