import HeaderRules.Proofs.ByteOrder
import HeaderRules.Proofs.ValidatedChain
import Mathlib.Data.Nat.Find

/-!
# The verdict of the self-check

Parameters are put to six tests, one after the other. `Params.Fault` says of every test by itself
when parameters fail it, so that several of them can fail at once. The self-check accepts exactly
the parameters that fail none, and of those that fail some it reports the first
(`self_check_decided_by_first_fault`). What it accepts is a chain whose maximum target and genesis
block are the ones that the parameters describe.
-/

namespace HeaderRules

open Outcome

namespace Params

variable {p : Params}

/-! ## The tests -/

/-- A test that parameters fail, with its place in the order of the tests, and the complaint about
it. -/
inductive Fault (p : Params) : Nat → ParamsError → Prop where
  | powPipeline {cause : HashError} (pipeline : p.powHash.validate = .error cause) :
      Fault p 0 (.pipeline cause)
  | blockPipeline {cause : HashError} (pipeline : p.blockHash.validate = .error cause) :
      Fault p 1 (.pipeline cause)
  | maxTarget (target : ∀ t, Target.ofCompact? p.maxTarget = some t → t.toNat = 0) :
      Fault p 2 (.invalidMaxTarget p.maxTarget)
  | timing (zero : p.targetSpacing = 0 ∨ p.targetTimespan = 0 ∨ p.interval = 0) :
      Fault p 3 (.zeroTiming p.chain)
  | genesisHex {cause : HexError} (rebuilt : p.genesis.header = .error cause) :
      Fault p 4 (.genesis (.hex cause))
  | genesisHash {header : Header} {digest : PowHash} (rebuilt : p.genesis.header = .ok header)
      (hashed : p.blockHash.hash header.bytes = .ok digest)
      (differs : digest.text ≠ p.genesis.hash) :
      Fault p 5 (.genesis (.hashMismatch p.chain digest.text p.genesis.hash))

/-- Parameters that pass every test. -/
structure Sound (p : Params) : Prop where
  powPipeline : p.powHash.validate = .ok ()
  blockPipeline : p.blockHash.validate = .ok ()
  maxTarget : ∃ t, Target.ofCompact? p.maxTarget = some t ∧ 0 < t.toNat
  timing : p.targetSpacing ≠ 0 ∧ p.targetTimespan ≠ 0 ∧ p.interval ≠ 0
  genesis : ∃ header digest, p.genesis.header = .ok header ∧
    p.blockHash.hash header.bytes = .ok digest ∧ digest.text = p.genesis.hash

theorem Sound.not_fault (h : p.Sound) {i : Nat} {e : ParamsError} : ¬p.Fault i e := by
  intro hfault
  obtain ⟨t, ht, hpos⟩ := h.maxTarget
  obtain ⟨hspacing, htimespan, hinterval⟩ := h.timing
  obtain ⟨header, digest, hrebuilt, hhashed, hknown⟩ := h.genesis
  cases hfault with
  | powPipeline pipeline => exact nomatch h.powPipeline.symm.trans pipeline
  | blockPipeline pipeline => exact nomatch h.blockPipeline.symm.trans pipeline
  | maxTarget target => exact hpos.ne' (target t ht)
  | timing zero =>
    rcases zero with h | h | h
    · exact hspacing h
    · exact htimespan h
    · exact hinterval h
  | genesisHex rebuilt => exact nomatch hrebuilt.symm.trans rebuilt
  | genesisHash rebuilt hashed differs =>
    obtain rfl := Except.ok.inj (hrebuilt.symm.trans rebuilt)
    obtain rfl := Except.ok.inj (hhashed.symm.trans hashed)
    exact differs hknown

/-! ### Where there is no fault a test passes -/

theorem powPipeline_of_no_fault (h : ∀ e, ¬p.Fault 0 e) : p.powHash.validate = .ok () := by
  obtain ⟨⟨⟩, hok⟩ | ⟨cause, herror⟩ := ok_or_error p.powHash.validate
  · exact hok
  · exact absurd (.powPipeline herror) (h _)

theorem blockPipeline_of_no_fault (h : ∀ e, ¬p.Fault 1 e) : p.blockHash.validate = .ok () := by
  obtain ⟨⟨⟩, hok⟩ | ⟨cause, herror⟩ := ok_or_error p.blockHash.validate
  · exact hok
  · exact absurd (.blockPipeline herror) (h _)

theorem maxTarget_of_no_fault (h : ∀ e, ¬p.Fault 2 e) :
    ∃ t, Target.ofCompact? p.maxTarget = some t ∧ 0 < t.toNat := by
  by_contra hnone
  refine h _ (.maxTarget fun t ht => ?_)
  by_contra hpos
  exact hnone ⟨t, ht, Nat.pos_of_ne_zero hpos⟩

theorem timing_of_no_fault (h : ∀ e, ¬p.Fault 3 e) :
    p.targetSpacing ≠ 0 ∧ p.targetTimespan ≠ 0 ∧ p.interval ≠ 0 := by
  rw [ne_eq, ne_eq, ne_eq, ← not_or, ← not_or]
  exact fun zero => h _ (.timing zero)

theorem header_of_no_fault (h : ∀ e, ¬p.Fault 4 e) : ∃ header, p.genesis.header = .ok header := by
  obtain hok | ⟨cause, herror⟩ := ok_or_error p.genesis.header
  · exact hok
  · exact absurd (.genesisHex herror) (h _)

theorem Sound.of_no_fault (h : ∀ i e, ¬p.Fault i e) : p.Sound := by
  have hblock := blockPipeline_of_no_fault (h 1)
  obtain ⟨header, hrebuilt⟩ := header_of_no_fault (h 4)
  have hhashed := HashPipeline.hash_of_validate hblock header.bytes
  refine ⟨powPipeline_of_no_fault (h 0), hblock, maxTarget_of_no_fault (h 2),
    timing_of_no_fault (h 3), header, _, hrebuilt, hhashed, ?_⟩
  by_contra hdiffers
  exact h _ _ (.genesisHash hrebuilt hhashed hdiffers)

/-- Parameters that are not sound have a first fault. -/
theorem exists_first_fault (h : ¬p.Sound) :
    ∃ i e, p.Fault i e ∧ ∀ j < i, ∀ e', ¬p.Fault j e' := by
  classical
  have hfault : ∃ i e, p.Fault i e := by
    by_contra hnone
    simp only [not_exists] at hnone
    exact h (.of_no_fault hnone)
  obtain ⟨e, he⟩ := Nat.find_spec hfault
  exact ⟨_, e, he, fun j hj => not_exists.1 (Nat.find_min hfault hj)⟩

/-! ## The self-check goes through the tests in their order -/

theorem decodedMaxTarget_eq_error (h : ∀ t, Target.ofCompact? p.maxTarget = some t → t.toNat = 0) :
    p.decodedMaxTarget = .error (.invalidMaxTarget p.maxTarget) := by
  rw [decodedMaxTarget]
  cases ht : Target.ofCompact? p.maxTarget with
  | none => rfl
  | some t => exact if_pos ((Target.isZero_iff t).2 (h t ht))

theorem hasZeroTiming_iff :
    p.hasZeroTiming = true ↔ p.targetSpacing = 0 ∨ p.targetTimespan = 0 ∨ p.interval = 0 := by
  simp only [hasZeroTiming, Bool.or_eq_true, beq_iff_eq, or_assoc]

/-- With usable pipelines the maximum target, the timing and the genesis block are left. -/
theorem validate_of_pipelines (hpow : p.powHash.validate = .ok ())
    (hblock : p.blockHash.validate = .ok ()) :
    p.validate = p.decodedMaxTarget >>= fun t =>
      if p.hasZeroTiming then .error (.zeroTiming p.chain)
      else ((GenesisBlock.build p).mapError .genesis).map fun genesis => (t, genesis) := by
  rw [validate, hpow, hblock]
  rcases p.decodedMaxTarget with e | t
  · rfl
  · cases p.hasZeroTiming
    · rfl
    · rfl

/-- With usable pipelines, a maximum target and positive timing the genesis block is left. -/
theorem validate_of_timing (hpow : p.powHash.validate = .ok ())
    (hblock : p.blockHash.validate = .ok ())
    (hmax : ∃ t, Target.ofCompact? p.maxTarget = some t ∧ 0 < t.toNat)
    (htiming : p.targetSpacing ≠ 0 ∧ p.targetTimespan ≠ 0 ∧ p.interval ≠ 0) :
    ∃ t, p.validate =
      ((GenesisBlock.build p).mapError .genesis).map fun genesis => (t, genesis) := by
  obtain ⟨t, ht⟩ := hmax
  rw [ne_eq, ne_eq, ne_eq, ← not_or, ← not_or, ← hasZeroTiming_iff] at htiming
  refine ⟨t, ?_⟩
  rw [validate_of_pipelines hpow hblock, decodedMaxTarget_eq_ok_iff.2 ht, ok_bind, if_neg htiming]

theorem build_of_header {header : Header} {digest : PowHash}
    (hrebuilt : p.genesis.header = .ok header)
    (hhashed : p.blockHash.hash header.bytes = .ok digest) :
    GenesisBlock.build p =
      if digest.text = p.genesis.hash then .ok ⟨header, digest.toBlockHash⟩
      else .error (.hashMismatch p.chain digest.text p.genesis.hash) := by
  rw [GenesisBlock.build, hrebuilt, mapError_ok, ok_bind, hhashed]
  rfl

theorem validate_of_sound (h : p.Sound) : ∃ checked, p.validate = .ok checked := by
  obtain ⟨header, digest, hrebuilt, hhashed, hknown⟩ := h.genesis
  obtain ⟨t, ht⟩ := validate_of_timing h.powPipeline h.blockPipeline h.maxTarget h.timing
  rw [ht, build_of_header hrebuilt hhashed, if_pos hknown]
  exact ⟨_, rfl⟩

/-- The first fault decides the error. -/
theorem validate_of_first_fault {i : Nat} {e : ParamsError} (h : p.Fault i e)
    (hleast : ∀ j < i, ∀ e', ¬p.Fault j e') : p.validate = .error e := by
  cases h with
  | powPipeline pipeline =>
    rw [validate, pipeline]
    rfl
  | blockPipeline pipeline =>
    rw [validate, powPipeline_of_no_fault (hleast 0 (by decide)), pipeline]
    rfl
  | maxTarget target =>
    rw [validate_of_pipelines (powPipeline_of_no_fault (hleast 0 (by decide)))
      (blockPipeline_of_no_fault (hleast 1 (by decide))), decodedMaxTarget_eq_error target]
    rfl
  | timing zero =>
    obtain ⟨t, ht⟩ := maxTarget_of_no_fault (hleast 2 (by decide))
    rw [validate_of_pipelines (powPipeline_of_no_fault (hleast 0 (by decide)))
      (blockPipeline_of_no_fault (hleast 1 (by decide))), decodedMaxTarget_eq_ok_iff.2 ht, ok_bind,
      if_pos (hasZeroTiming_iff.2 zero)]
  | genesisHex rebuilt =>
    obtain ⟨t, ht⟩ := validate_of_timing (powPipeline_of_no_fault (hleast 0 (by decide)))
      (blockPipeline_of_no_fault (hleast 1 (by decide)))
      (maxTarget_of_no_fault (hleast 2 (by decide))) (timing_of_no_fault (hleast 3 (by decide)))
    rw [ht, GenesisBlock.build, rebuilt]
    rfl
  | genesisHash rebuilt hashed differs =>
    obtain ⟨t, ht⟩ := validate_of_timing (powPipeline_of_no_fault (hleast 0 (by decide)))
      (blockPipeline_of_no_fault (hleast 1 (by decide)))
      (maxTarget_of_no_fault (hleast 2 (by decide))) (timing_of_no_fault (hleast 3 (by decide)))
    rw [ht, build_of_header rebuilt hashed, if_neg differs]
    rfl

end Params

/-! ## Validated chains -/

namespace ChainParams

variable {c : ChainParams} {p : Params}

theorem ofParams_eq_error_iff {e : ParamsError} :
    ofParams p = .error e ↔ p.validate = .error e := by
  rw [ofParams]
  constructor
  · intro h
    split at h
    · cases h
    · next e' hself =>
      cases h
      exact hself
  · intro h
    split
    · next hself => cases hself.symm.trans h
    · next e' hself =>
      cases hself.symm.trans h
      rfl

/-- The parameters of a validated chain pass every test. -/
theorem sound (c : ChainParams) : c.params.Sound := by
  by_contra hnot
  obtain ⟨i, e, hfault, hleast⟩ := Params.exists_first_fault hnot
  exact nomatch c.validated.symm.trans (Params.validate_of_first_fault hfault hleast)

/-- Parameters are accepted exactly if they pass every test: both pipelines validate, the maximum
target is positive, no timing constant is zero, and the rebuilt genesis header has the known
identity. Otherwise the first test that fails decides the error.

A chain that comes of it has these parameters, the maximum target that they name, and the genesis
block that they describe, under its identity; and every header that declares the code of the maximum
target is allowed just that. -/
theorem self_check_decided_by_first_fault (p : Params) :
    ((∃ c, ofParams p = .ok c) ↔ p.Sound) ∧
    (∀ e, ofParams p = .error e ↔ ∃ i, p.Fault i e ∧ ∀ j < i, ∀ e', ¬p.Fault j e') ∧
    ∀ c, ofParams p = .ok c →
      c.params = p ∧
      (Target.ofCompact? p.maxTarget = some c.maxTarget ∧ 0 < c.maxTarget.toNat) ∧
      p.genesis.header = .ok c.genesis.header ∧
      c.blockHash c.genesis.header = .ok c.genesis.hash ∧
      c.genesis.hash.text = p.genesis.hash ∧
      ∀ header : Header, header.bits = p.maxTarget →
        c.declaredTarget header.bits = .ok c.maxTarget := by
  refine ⟨⟨?_, fun h => ?_⟩, fun e => ⟨fun h => ?_, ?_⟩, fun c hc => ?_⟩
  · rintro ⟨c, hc⟩
    rw [← c.ofParams_eq_ok_iff.1 hc]
    exact c.sound
  · obtain ⟨⟨t, genesis⟩, hself⟩ := Params.validate_of_sound h
    exact ⟨⟨p, t, genesis, hself⟩, (ofParams_eq_ok_iff _).2 rfl⟩
  · rw [ofParams_eq_error_iff] at h
    have hnot : ¬p.Sound := by
      intro hsound
      obtain ⟨checked, hself⟩ := Params.validate_of_sound hsound
      exact nomatch hself.symm.trans h
    obtain ⟨i, e', hfault, hleast⟩ := Params.exists_first_fault hnot
    obtain rfl := Except.error.inj ((Params.validate_of_first_fault hfault hleast).symm.trans h)
    exact ⟨i, hfault, hleast⟩
  · rintro ⟨i, hfault, hleast⟩
    exact ofParams_eq_error_iff.2 (Params.validate_of_first_fault hfault hleast)
  · obtain rfl := c.ofParams_eq_ok_iff.1 hc
    obtain ⟨digest, hrebuilt, hhashed, hknown, hhash⟩ :=
      GenesisBlock.build_eq_ok_iff.1 c.build_genesis
    refine ⟨rfl, ⟨c.ofCompact?_maxTarget, c.maxTarget_pos⟩, hrebuilt, ?_, ?_,
      fun header hbits => ?_⟩
    · rw [hhash]
      exact map_eq_ok_iff.2 ⟨digest, hhashed, rfl⟩
    · rw [hhash, PowHash.text_toBlockHash, hknown]
    · rw [hbits]
      exact c.declaredTarget_eq_ok_iff.2 ⟨c.ofCompact?_maxTarget, c.maxTarget_pos,
        le_refl c.maxTarget.toNat⟩

/-- Dogecoin without an interval and with another identity of its genesis block. -/
def haltedDogecoin : Params :=
  { Params.dogecoin with interval := 0, genesis := { GenesisInfo.dogecoin with hash := "" } }

/-- Dogecoin is accepted with the identity of its genesis block. Of the two faults that it can be
given, the one in the timing is reported. -/
theorem dogecoin_accepted_and_refused_without_interval :
    ofParams .dogecoin = .ok dogecoin ∧
      dogecoin.genesis.hash.text =
        "1a91e3dace36e2be3bf030a65679fe821aa1d6ef92e7c9902eb318182c355691" ∧
      dogecoin.declaredTarget ⟨0x1e0fffff⟩ = .ok dogecoin.maxTarget ∧
      ofParams haltedDogecoin = .error (.zeroTiming .dogecoin) := by
  have haccepted : ofParams .dogecoin = .ok dogecoin := (ofParams_eq_ok_iff _).2 rfl
  obtain ⟨-, -, hchain⟩ := self_check_decided_by_first_fault .dogecoin
  obtain ⟨-, -, -, -, hhash, hmax⟩ := hchain dogecoin haccepted
  obtain ⟨-, hrefused, -⟩ := self_check_decided_by_first_fault haltedDogecoin
  have hleast : ∀ j < 3, ∀ e, ¬haltedDogecoin.Fault j e := by
    intro j hj e hfault
    -- The first three tests are those of Dogecoin.
    cases hfault with
    | powPipeline pipeline => exact dogecoin.sound.not_fault (.powPipeline pipeline)
    | blockPipeline pipeline => exact dogecoin.sound.not_fault (.blockPipeline pipeline)
    | maxTarget target => exact dogecoin.sound.not_fault (.maxTarget target)
    | timing => exact absurd hj (by decide)
    | genesisHex => exact absurd hj (by decide)
    | genesisHash => exact absurd hj (by decide)
  exact ⟨haccepted, hhash, hmax { (default : Header) with bits := ⟨0x1e0fffff⟩ } rfl,
    (hrefused _).2 ⟨3, .timing (.inr (.inr rfl)), hleast⟩⟩

end ChainParams

end HeaderRules
