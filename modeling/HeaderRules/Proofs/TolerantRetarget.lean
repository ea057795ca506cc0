import HeaderRules.Proofs.RetargetCheck

/-!
# Retarget points with a tolerance

Early heights of a gravity-well chain compare difficulties instead of codes, and accept a relative
error. The difficulty of a code divides by its field, so the comparison means something only where
the reduced target has a code with a field that is not zero. The declared code chooses where the
target is reduced. The module says for which declared codes nothing is left of the target, and for
which targets this cannot happen.
-/

namespace HeaderRules

open Outcome

/-! ## Codes without a field -/

namespace Target

/-- The code of a reduced target has a field where the window has a digit that is not zero. -/
theorem mask_field_ne_zero_iff (t : Target) (bits : CompactTarget) :
    (t.maskToPrecisionOf bits).toCompact.bits &&& 0x00ffffff ≠ 0 ↔
      256 ^ (bits.exponent - 3) ≤ t.toNat % 256 ^ bits.exponent := by
  rw [ne_eq, ← UInt32.toNat_inj, CompactTarget.toNat_field, ← digitWindow_pos_iff,
    ← toNat_maskToPrecisionOf, Nat.pos_iff_ne_zero, ne_eq, ← field_toCompact_eq_zero_iff]
  rfl

end Target

namespace ChainParams

variable {c : ChainParams} {prev : StoredBlock} {history : History} {t : Target}

/-- Every exponent whose unit the chain allows is the exponent of a usable code, the one of that
unit. -/
theorem exists_usable_code {e : Nat} (he : 0 < e) (hunit : 256 ^ (e - 3) ≤ c.maxTarget.toNat) :
    ∃ bits : CompactTarget, bits.exponent = e ∧ ∃ d, c.declaredTarget bits = .ok d := by
  have hsize : e < 35 := by
    have := lt_of_pow_256_lt (hunit.trans_lt c.maxTarget.toNat_lt)
    omega
  have hfield : 256 ^ (3 - e) ≤ 256 ^ 2 := pow_256_le (by omega)
  have hscale : 256 ^ (3 - e) * 256 ^ e = 256 ^ (e - 3) * 256 ^ 3 := by
    rw [← pow_add, ← pow_add]
    congr 1
    omega
  -- The field of the unit is one, moved up where the exponent is below three.
  obtain ⟨bits, hbits⟩ : ∃ bits : CompactTarget, bits.bits.toNat = e * 2 ^ 24 + 256 ^ (3 - e) :=
    ⟨⟨.ofNat (e * 2 ^ 24 + 256 ^ (3 - e))⟩, UInt32.toNat_ofNat_of_lt' (by
      show _ < 2 ^ 32
      omega)⟩
  obtain ⟨hexp, hf⟩ := CompactTarget.exponent_and_field_of_bits (by omega) hbits
  have hfit : bits.field * 256 ^ bits.exponent < 256 ^ 35 := by
    rw [hf, hexp, hscale, ← pow_add]
    exact Nat.pow_lt_pow_right (by decide) (by omega)
  obtain ⟨d, hdecode, hd⟩ := Target.ofCompact?_of_fits (by omega) hfit
  rw [hf, hexp, hscale, Nat.mul_div_cancel _ (pow_256_pos 3)] at hd
  have hpos : 0 < d.toNat := by
    rw [hd]
    exact pow_256_pos (e - 3)
  have hle : d.toNat ≤ c.maxTarget.toNat := hd.trans_le hunit
  exact ⟨bits, hexp, d, c.declaredTarget_eq_ok_iff.2 ⟨hdecode, hpos, hle⟩⟩

/-- At a tolerant retarget point a header is judged by the distance of its difficulty from that of
the reduced target. The field that the latter divides by is zero exactly if the target has three
zero digits below the exponent of the declared code. This happens for no usable code exactly if the
target has no such digits up to the leading ones of the easiest target. -/
theorem tolerant_retarget_field_ne_zero_iff {tolerance : Float}
    (hpoint : c.params.shouldRetarget prev.height = true)
    (htolerance : c.params.toleranceAt (nextHeight prev.height) = some tolerance)
    (ht : c.requiredTarget prev history = .ok t) :
    (∀ next : Header, c.checkDifficulty prev next history =
      if exceedsTolerance (t.maskToPrecisionOf next.bits).toCompact next.bits tolerance then
        .error (.difficultyMismatch (nextHeight prev.height)
          (t.maskToPrecisionOf next.bits).toCompact next.bits)
      else .ok ()) ∧
    (∀ next : Header, (t.maskToPrecisionOf next.bits).toCompact.bits &&& 0x00ffffff ≠ 0 ↔
      256 ^ (next.bits.exponent - 3) ≤ t.toNat % 256 ^ next.bits.exponent) ∧
    ((∀ (next : Header) (d : Target), c.declaredTarget next.bits = .ok d →
        (t.maskToPrecisionOf next.bits).toCompact.bits &&& 0x00ffffff ≠ 0) ↔
      ∀ e, 0 < e → 256 ^ (e - 3) ≤ c.maxTarget.toNat → 256 ^ (e - 3) ≤ t.toNat % 256 ^ e) := by
  have hfield (bits : CompactTarget) := t.mask_field_ne_zero_iff bits
  refine ⟨fun next => ?_, fun next => hfield next.bits, fun hall e he hunit => ?_,
    fun hall next d husable => ?_⟩
  · rw [checkDifficulty_eq_compareDeclared hpoint ht, compareDeclared_of_tolerance htolerance]
  · -- The unit of every exponent has a usable code, which puts the window there.
    obtain ⟨bits, rfl, d, husable⟩ := exists_usable_code he hunit
    exact (hfield bits).1 (hall { prev.header with bits := bits } d husable)
  · obtain ⟨hpos, hunit⟩ := c.unit_le_of_declaredTarget husable
    exact (hfield next.bits).2 (hall next.bits.exponent hpos hunit)

/-! ## A lone block below the end of the tolerance -/

/-- Dogecoin with the retargets of Darkcoin. -/
def gravityDogecoin : ChainParams := dogecoin.withRetarget (.gravityWell .darkcoin)

/-- The last block before the only height at which the third wave has a tolerance. -/
def waveTip (bits : CompactTarget) : StoredBlock where
  hash := default
  header := bareHeader 1400000000 bits
  height := 68588

/-- Without history a third of the target is required. A third of `0x1e0ffffe` has no zero digits,
so that every usable code is compared with a finite difficulty. -/
theorem third_of_target_field_ne_zero :
    ((Target.ofNat (0x0ffffe * 256 ^ 27 / 3)).maskToPrecisionOf ⟨0x1b0404cb⟩).toCompact.bits &&&
      0x00ffffff ≠ 0 := by
  have ht : gravityDogecoin.requiredTarget (waveTip ⟨0x1e0ffffe⟩) (fun _ => none) =
      .ok (.ofNat (0x0ffffe * 256 ^ 27 / 3)) := by decide +kernel
  have husable : gravityDogecoin.declaredTarget ⟨0x1b0404cb⟩ =
      .ok (.ofNat (0x0404cb * 256 ^ 24)) := by decide +kernel
  have hdigits : ∀ e < 33, 0 < e →
      256 ^ (e - 3) ≤ (Target.ofNat (0x0ffffe * 256 ^ 27 / 3)).toNat % 256 ^ e := by
    decide +kernel
  have htolerance : gravityDogecoin.params.toleranceAt
      (nextHeight (waveTip ⟨0x1e0ffffe⟩).height) = some 0.2 := rfl
  obtain ⟨-, -, hfinite⟩ :=
    tolerant_retarget_field_ne_zero_iff (by decide +kernel) htolerance ht
  refine hfinite.2 (fun e he hunit => hdigits e ?_ he)
    (bareHeader 1400000060 ⟨0x1b0404cb⟩) _ husable
  have hlt := lt_of_pow_256_lt
    (hunit.trans_lt (by decide +kernel : gravityDogecoin.maxTarget.toNat < 256 ^ 30))
  omega

/-- Of a required target that lies far below the easiest one, the code of the easiest one leaves
nothing. -/
theorem easiest_code_field_eq_zero :
    gravityDogecoin.params.shouldRetarget (waveTip ⟨0x1a00ffff⟩).height = true ∧
      gravityDogecoin.params.toleranceAt (nextHeight (waveTip ⟨0x1a00ffff⟩).height) = some 0.2 ∧
      gravityDogecoin.requiredTarget (waveTip ⟨0x1a00ffff⟩) (fun _ => none) =
        .ok (.ofNat (0x5555 * 256 ^ 23)) ∧
      0 < (Target.ofNat (0x5555 * 256 ^ 23)).toNat ∧
      Target.ofNat (0x5555 * 256 ^ 23) ≤ gravityDogecoin.maxTarget ∧
      gravityDogecoin.declaredTarget ⟨0x1e0fffff⟩ = .ok gravityDogecoin.maxTarget ∧
      ((Target.ofNat (0x5555 * 256 ^ 23)).maskToPrecisionOf ⟨0x1e0fffff⟩).toCompact.bits &&&
        0x00ffffff = 0 := by
  exact ⟨by decide +kernel, rfl, by decide +kernel, by decide +kernel, by decide +kernel,
    by decide +kernel, by decide +kernel⟩

end ChainParams

end HeaderRules
