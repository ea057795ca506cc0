import HeaderRules.Proofs.CompactCodec
import HeaderRules.Proofs.Outcome
import HeaderRules.Verification

/-!
# Validated parameters

What the self-check leaves to rely on: both pipelines can be run on every header, and the maximum
target is the positive target that the parameters name. The check looks neither at the way a chain
retargets nor at its rule for long pauses, so a validated chain can be given any other.
-/

namespace HeaderRules

open Outcome

/-- What the function of a pipeline makes of a header. -/
def HashPipeline.output (pipeline : HashPipeline) (header : Bytes 80) : List UInt8 :=
  match pipeline with
  | sha256d => Hash.Sha256.hashTwice header.toList
  | scrypt params =>
    Hash.Scrypt.hash header.toList header.toList params.n params.r.toNat params.p.toNat 32
  | x11 => Hash.X11.hash header.toList

theorem HashPipeline.length_output (pipeline : HashPipeline) (header : Bytes 80) :
    (pipeline.output header).length = 32 := by
  cases pipeline with
  | sha256d => exact Hash.Sha256.length_hashTwice header.toList
  | scrypt params => exact Hash.Scrypt.length_hash ..
  | x11 => exact Hash.X11.length_hash header.toList

/-- The digest of a header under a pipeline, in internal order. -/
def HashPipeline.digest (pipeline : HashPipeline) (header : Bytes 80) : Bytes 32 :=
  ⟨pipeline.output header, pipeline.length_output header⟩

/-- A pipeline that validates can be run on every header. -/
theorem HashPipeline.hash_of_validate {p : HashPipeline} (h : p.validate = .ok ())
    (header : Bytes 80) : p.hash header = .ok (.ofInternal (p.digest header)) := by
  cases p with
  | sha256d => rfl
  | x11 => rfl
  | scrypt params => exact bind_eq_ok_iff.2 ⟨(), h, rfl⟩

/-- A genesis block is the rebuilt header with its identity, where that is the known one. -/
theorem GenesisBlock.build_eq_ok_iff {p : Params} {genesis : GenesisBlock} :
    build p = .ok genesis ↔ ∃ digest, p.genesis.header = .ok genesis.header ∧
      p.blockHash.hash genesis.header.bytes = .ok digest ∧ digest.text = p.genesis.hash ∧
      genesis.hash = digest.toBlockHash := by
  simp only [build, bind_eq_ok_iff, mapError_eq_ok_iff]
  constructor
  · rintro ⟨header, hheader, digest, hdigest, hbuilt⟩
    split_ifs at hbuilt with hknown
    obtain rfl := Except.ok.inj hbuilt
    exact ⟨digest, hheader, hdigest, hknown, rfl⟩
  · rintro ⟨digest, hheader, hdigest, hknown, hhash⟩
    refine ⟨genesis.header, hheader, digest, hdigest, ?_⟩
    rw [if_pos hknown, ← hhash]
    rfl

/-- The self-check passes where each of its parts does. -/
theorem Params.validate_eq_ok_iff {p : Params} {maxTarget : Target} {genesis : GenesisBlock} :
    p.validate = .ok (maxTarget, genesis) ↔
      p.powHash.validate = .ok () ∧ p.blockHash.validate = .ok () ∧
        p.decodedMaxTarget = .ok maxTarget ∧ p.hasZeroTiming = false ∧
        GenesisBlock.build p = .ok genesis := by
  simp only [validate, bind_eq_ok_iff, mapError_eq_ok_iff]
  constructor
  · rintro ⟨_, hpow, _, hblock, decoded, hmax, h⟩
    cases htiming : p.hasZeroTiming with
    | true =>
      rw [if_pos htiming] at h
      obtain ⟨_, hthrow, -⟩ := bind_eq_ok_iff.1 h
      cases hthrow
    | false =>
      rw [htiming, if_neg Bool.false_ne_true] at h
      obtain ⟨built, hbuilt, hpair⟩ := bind_eq_ok_iff.1 h
      cases hpair
      exact ⟨hpow, hblock, hmax, rfl, mapError_eq_ok_iff.1 hbuilt⟩
  · rintro ⟨hpow, hblock, hmax, htiming, hbuilt⟩
    refine ⟨(), hpow, (), hblock, maxTarget, hmax, ?_⟩
    rw [htiming, if_neg Bool.false_ne_true, bind_eq_ok_iff]
    exact ⟨genesis, mapError_eq_ok_iff.2 hbuilt, rfl⟩

/-- The maximum target of parameters is the positive target that they name. -/
theorem Params.decodedMaxTarget_eq_ok_iff {p : Params} {t : Target} :
    p.decodedMaxTarget = .ok t ↔ Target.ofCompact? p.maxTarget = some t ∧ 0 < t.toNat := by
  rw [decodedMaxTarget]
  cases Target.ofCompact? p.maxTarget with
  | none => simp
  | some u =>
    by_cases hzero : u.isZero = true
    · have hu : u.toNat = 0 := (Target.isZero_iff u).1 hzero
      simp only [hzero, if_true, reduceCtorEq, Option.some.injEq, false_iff, not_and]
      rintro rfl
      omega
    · have hu : u.toNat ≠ 0 := mt (Target.isZero_iff u).2 hzero
      simp only [hzero, Bool.false_eq_true, if_false, Except.ok.injEq, Option.some.injEq,
        iff_self_and]
      rintro rfl
      omega

namespace ChainParams

variable (c : ChainParams)

/-- The self-check leaves no choice: validated parameters are known by the parameters. -/
theorem ofParams_eq_ok_iff {p : Params} : ofParams p = .ok c ↔ c.params = p := by
  rw [ofParams]
  constructor
  · intro h
    split at h
    · cases h
      rfl
    · exact nomatch h
  · rintro rfl
    split
    · next maxTarget genesis hself =>
      obtain ⟨rfl, rfl⟩ := Prod.mk.inj (Except.ok.inj (c.validated.symm.trans hself))
      rfl
    · next e hself => exact nomatch c.validated.symm.trans hself

theorem powHash_eq (header : Header) :
    c.powHash header = .ok (.ofInternal (c.params.powHash.digest header.bytes)) :=
  HashPipeline.hash_of_validate (Params.validate_eq_ok_iff.1 c.validated).1 header.bytes

theorem exists_blockHash (header : Header) : ∃ hash, c.blockHash header = .ok hash :=
  ⟨_, map_eq_ok_iff.2 ⟨_, HashPipeline.hash_of_validate
    (Params.validate_eq_ok_iff.1 c.validated).2.1 header.bytes, rfl⟩⟩

theorem ofCompact?_maxTarget : Target.ofCompact? c.params.maxTarget = some c.maxTarget :=
  (Params.decodedMaxTarget_eq_ok_iff.1 (Params.validate_eq_ok_iff.1 c.validated).2.2.1).1

theorem maxTarget_pos : 0 < c.maxTarget.toNat :=
  (Params.decodedMaxTarget_eq_ok_iff.1 (Params.validate_eq_ok_iff.1 c.validated).2.2.1).2

/-- The genesis block is the one that the parameters describe. -/
theorem build_genesis : GenesisBlock.build c.params = .ok c.genesis :=
  (Params.validate_eq_ok_iff.1 c.validated).2.2.2.2

/-- The genesis block has the time that the parameters give it. -/
theorem genesis_time : c.genesis.header.time = c.params.genesis.timestamp := by
  obtain ⟨digest, hheader, -⟩ := GenesisBlock.build_eq_ok_iff.1 c.build_genesis
  obtain ⟨root, -, hroot⟩ := bind_eq_ok_iff.1 hheader
  rw [← Except.ok.inj hroot]

/-- A code is usable on a chain if it decodes to a positive target up to the maximum. -/
theorem declaredTarget_eq_ok_iff {bits : CompactTarget} {t : Target} :
    c.declaredTarget bits = .ok t ↔
      Target.ofCompact? bits = some t ∧ 0 < t.toNat ∧ t ≤ c.maxTarget := by
  rw [declaredTarget]
  cases Target.ofCompact? bits with
  | none => simp
  | some u =>
    have hzero : (!u.isZero) = true ↔ 0 < u.toNat := by
      rw [Bool.not_eq_true', ← Bool.not_eq_true, Target.isZero_iff, Nat.pos_iff_ne_zero]
    simp only [Bool.and_eq_true, hzero, decide_eq_true_eq]
    split_ifs with husable
    · simp only [Except.ok.injEq, Option.some.injEq, iff_self_and]
      rintro rfl
      exact husable
    · simp only [Option.some.injEq, false_iff, not_and]
      rintro rfl hpos hle
      exact husable ⟨hpos, hle⟩

/-- The unit of a usable code is a target that the chain allows. -/
theorem unit_le_of_declaredTarget {bits : CompactTarget} {t : Target}
    (h : c.declaredTarget bits = .ok t) :
    0 < bits.exponent ∧ 256 ^ (bits.exponent - 3) ≤ c.maxTarget.toNat := by
  obtain ⟨hdecode, hpos, hle⟩ := c.declaredTarget_eq_ok_iff.1 h
  obtain ⟨hexp, hunit⟩ := Target.unit_le_of_ofCompact? hdecode hpos
  exact ⟨hexp, hunit.trans hle⟩

/-- The same chain with another way to retarget. -/
def withRetarget (strategy : RetargetStrategy) : ChainParams where
  params := { c.params with retarget := strategy }
  maxTarget := c.maxTarget
  genesis := c.genesis
  validated := c.validated

/-- The same chain with another rule for long pauses. -/
def withMinDifficulty (rule : Option MinDifficultyRule) : ChainParams where
  params := { c.params with minDifficulty := rule }
  maxTarget := c.maxTarget
  genesis := c.genesis
  validated := c.validated

/-- The chain of parameters whose self-check passes. The maximum target is not read off the
self-check, so that evaluating it hashes nothing. -/
def ofValidated (p : Params) (h : p.validate.isOk = true) : ChainParams where
  params := p
  maxTarget := p.decodedMaxTarget.toOption.getD .zero
  genesis := (GenesisBlock.build p).toOption.getD default
  validated := by
    rcases hself : p.validate with e | ⟨maxTarget, genesis⟩
    · rw [hself] at h
      cases h
    · obtain ⟨-, -, hmax, -, hbuilt⟩ := Params.validate_eq_ok_iff.1 hself
      rw [hmax, hbuilt]
      rfl

/-- Dogecoin, which retargets at every block from height 145000 on. -/
def dogecoin : ChainParams := ofValidated .dogecoin (by decide +kernel)

end ChainParams

end HeaderRules
