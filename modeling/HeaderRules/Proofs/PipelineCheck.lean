import HeaderRules.Proofs.ValidatedChain
import HeaderRules.Store

/-!
# Pipelines that can be run

A pipeline is checked twice: once when the parameters of a chain are validated, and again whenever a
header is hashed. Both checks come to the same answer, which depends on the pipeline alone
(`validation_decides_hashing`). The answer is given by `ScryptParams.Admissible`, the rules of
scrypt over exact numbers; a wrong length of the digest is reported before any of them is looked at.

So whatever hashes headers does so for all of them or for none: placing a header at a height gives a
block or the complaint about the pipeline, and a validated chain hashes every header.
-/

namespace HeaderRules

open Outcome

namespace ScryptParams

variable {params : ScryptParams} {e : HashError}

/-- The rules of scrypt. The cost is `2 ^ logN`; the memory of a block, of the table and of all
lanes is counted in bytes, which must fit into 64 bits. -/
structure Admissible (params : ScryptParams) : Prop where
  r_pos : 0 < params.r.toNat
  p_pos : 0 < params.p.toNat
  logN_lt : params.logN.toNat < 64
  cost_fits_block : params.logN.toNat < 16 * params.r.toNat
  lanes_lt : params.r.toNat * params.p.toNat < 2 ^ 30
  block_memory : params.r.toNat * 128 < 2 ^ 64
  table_memory : params.r.toNat * 128 * 2 ^ params.logN.toNat < 2 ^ 64
  lane_memory : params.r.toNat * 128 * params.p.toNat < 2 ^ 64

/-- The tests on words are the rules over exact numbers. -/
theorem inRange_iff : params.inRange = true ↔ params.Admissible := by
  have hsize : UInt64.size = 2 ^ 64 := rfl
  have hlanes : 0x40000000 = 2 ^ 30 := rfl
  simp only [inRange, Bool.and_eq_true, decide_eq_true_eq, ← Nat.pos_iff_ne_zero, hsize, hlanes,
    Nat.shiftLeft_eq]
  constructor
  · rintro ⟨⟨⟨⟨⟨⟨⟨hr, hp⟩, hlogN⟩, hblock⟩, htable⟩, hlane⟩, hcost⟩, hlanes⟩
    exact ⟨hr, hp, hlogN, hcost, hlanes, hblock, htable, hlane⟩
  · intro h
    exact ⟨⟨⟨⟨⟨⟨⟨h.r_pos, h.p_pos⟩, h.logN_lt⟩, h.block_memory⟩, h.table_memory⟩, h.lane_memory⟩,
      h.cost_fits_block⟩, h.lanes_lt⟩

/-- The length of the digest is looked at first. -/
theorem check_eq_error_iff : params.check = .error e ↔
    (params.outputLen ≠ 32 ∧ e = .digestLength params.outputLen) ∨
      (params.outputLen = 32 ∧ ¬params.Admissible ∧ e = .scryptParams params) := by
  rw [check, ← inRange_iff]
  by_cases hlength : params.outputLen = 32
  · rw [if_neg (not_not_intro hlength)]
    by_cases hrange : params.inRange = true
    · rw [if_pos hrange]
      refine iff_of_false nofun ?_
      rintro (⟨hother, -⟩ | ⟨-, hbroken, -⟩)
      · exact hother hlength
      · exact hbroken hrange
    · rw [if_neg hrange, Except.error.injEq]
      constructor
      · rintro rfl
        exact .inr ⟨hlength, hrange, rfl⟩
      · rintro (⟨hother, -⟩ | ⟨-, -, rfl⟩)
        · exact absurd hlength hother
        · rfl
  · rw [if_pos hlength, Except.error.injEq]
    constructor
    · rintro rfl
      exact .inl ⟨hlength, rfl⟩
    · rintro (⟨-, rfl⟩ | ⟨hthirtyTwo, -⟩)
      · rfl
      · exact absurd hthirtyTwo hlength

end ScryptParams

namespace HashPipeline

variable {pipeline : HashPipeline} {e : HashError}

/-- Only scrypt has parameters that can be wrong. -/
theorem validate_eq_error_iff : pipeline.validate = .error e ↔
    ∃ params, pipeline = .scrypt params ∧
      ((params.outputLen ≠ 32 ∧ e = .digestLength params.outputLen) ∨
        (params.outputLen = 32 ∧ ¬params.Admissible ∧ e = .scryptParams params)) := by
  cases pipeline with
  | sha256d => exact iff_of_false nofun nofun
  | x11 => exact iff_of_false nofun nofun
  | scrypt params =>
    rw [validate, ScryptParams.check_eq_error_iff]
    constructor
    · intro h
      exact ⟨params, rfl, h⟩
    · rintro ⟨_, hsame, h⟩
      cases hsame
      exact h

/-- A pipeline that does not validate fails on every header, with the same complaint. -/
theorem hash_of_validate_error (h : pipeline.validate = .error e) (header : Bytes 80) :
    pipeline.hash header = .error e := by
  obtain ⟨params, rfl, -⟩ := validate_eq_error_iff.1 h
  exact bind_eq_error_iff.2 (.inl h)

/-- A pipeline validates, or there is a complaint about it. -/
theorem validate_ok_or_error (pipeline : HashPipeline) :
    pipeline.validate = .ok () ∨ ∃ e, pipeline.validate = .error e := by
  obtain ⟨⟨⟩, h⟩ | herror := ok_or_error pipeline.validate
  · exact .inl h
  · exact .inr herror

theorem hash_eq_ok_iff {header : Bytes 80} {digest : PowHash} :
    pipeline.hash header = .ok digest ↔
      pipeline.validate = .ok () ∧ digest = .ofInternal (pipeline.digest header) := by
  obtain h | ⟨e, h⟩ := pipeline.validate_ok_or_error
  · rw [hash_of_validate h, h, Except.ok.injEq, eq_comm, and_iff_right rfl]
  · rw [hash_of_validate_error h, h]
    exact iff_of_false nofun fun hand => nomatch hand.1

theorem hash_eq_error_iff {header : Bytes 80} :
    pipeline.hash header = .error e ↔ pipeline.validate = .error e := by
  obtain h | ⟨e', h⟩ := pipeline.validate_ok_or_error
  · rw [hash_of_validate h, h]
    exact iff_of_false nofun nofun
  · rw [hash_of_validate_error h, h, Except.error.injEq, Except.error.injEq]

theorem not_validate_error_derivation (reason : String) :
    pipeline.validate ≠ .error (.derivation reason) := by
  rw [ne_eq, validate_eq_error_iff]
  rintro ⟨params, -, ⟨-, he⟩ | ⟨-, -, he⟩⟩ <;> cases he

/-- Placing headers at heights succeeds for all of them, or fails for all of them with the complaint
about the pipeline. -/
theorem ofHeader_all_or_none (pipeline : HashPipeline) :
    (pipeline.validate = .ok () ∧
        ∀ header height, ∃ block, StoredBlock.ofHeader header height pipeline = .ok block) ∨
      ∃ e, pipeline.validate = .error e ∧
        ∀ header height, StoredBlock.ofHeader header height pipeline = .error e := by
  obtain h | ⟨e, h⟩ := pipeline.validate_ok_or_error
  · refine .inl ⟨h, fun header height => ?_⟩
    exact ⟨_, map_eq_ok_iff.2 ⟨_, hash_of_validate h header.bytes, rfl⟩⟩
  · refine .inr ⟨e, h, fun header height => ?_⟩
    exact map_eq_error_iff.2 (hash_of_validate_error h header.bytes)

/-- Validating a pipeline and hashing any header with it succeed together and fail with the same
error. It is an error exactly if the pipeline is scrypt with a digest of another length than
thirty-two, which is reported whatever the other parameters are, or with parameters that break the
rules of scrypt, which are reported themselves; the derivation of a digest never fails after that.

Hence placing headers at heights succeeds for all headers and heights or fails for all of them, with
that same error, and a validated chain, of which both pipelines validate, computes the digest and
the identity of every header. -/
theorem validation_decides_hashing :
    (∀ pipeline : HashPipeline,
      (∀ header, (∃ digest, pipeline.hash header = .ok digest) ↔ pipeline.validate = .ok ()) ∧
      (∀ header e, pipeline.hash header = .error e ↔ pipeline.validate = .error e) ∧
      (∀ e, pipeline.validate = .error e ↔ ∃ params, pipeline = .scrypt params ∧
        ((params.outputLen ≠ 32 ∧ e = .digestLength params.outputLen) ∨
          (params.outputLen = 32 ∧ ¬params.Admissible ∧ e = .scryptParams params))) ∧
      (∀ header reason, pipeline.hash header ≠ .error (.derivation reason)) ∧
      ((pipeline.validate = .ok () ∧
          ∀ header height, ∃ block, StoredBlock.ofHeader header height pipeline = .ok block) ∨
        ∃ e, pipeline.validate = .error e ∧
          ∀ header height, StoredBlock.ofHeader header height pipeline = .error e)) ∧
    ∀ c : ChainParams,
      (c.params.powHash.validate = .ok () ∧ ∀ header, ∃ digest, c.powHash header = .ok digest) ∧
      c.params.blockHash.validate = .ok () ∧ ∀ header, ∃ hash, c.blockHash header = .ok hash := by
  refine ⟨fun pipeline => ⟨fun header => ?_, fun header e => hash_eq_error_iff,
    fun e => validate_eq_error_iff, fun header reason => ?_, pipeline.ofHeader_all_or_none⟩,
    fun c => ?_⟩
  · simp only [hash_eq_ok_iff, exists_and_left, exists_eq, and_true]
  · rw [ne_eq, hash_eq_error_iff]
    exact not_validate_error_derivation reason
  · obtain ⟨hpow, hblock, -⟩ := Params.validate_eq_ok_iff.1 c.validated
    exact ⟨⟨hpow, fun header => ⟨_, c.powHash_eq header⟩⟩, hblock, c.exists_blockHash⟩

end HashPipeline

end HeaderRules
