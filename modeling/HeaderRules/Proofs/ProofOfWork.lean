import HeaderRules.Proofs.ByteOrder
import HeaderRules.Proofs.ValidatedChain

/-!
# The verdict on the work of a header

A header is judged by two numbers: the target that its code denotes, and its digest, read with the
least significant byte first. A code that the chain cannot use settles the matter before anything
is hashed. Otherwise the digest is computed, which never fails on a validated chain, and the two
numbers are compared. So there are three verdicts and no other
(`work_decided_by_target_and_digest`), and the check that only answers yes or no sorts them the
same way.
-/

namespace HeaderRules

open Outcome

namespace ChainParams

variable {c : ChainParams} {header : Header} {bits : CompactTarget} {t : Target}

/-! ## The declared target -/

/-- A code denotes a target that the chain can use: it is positive and not above the maximum. -/
def Declares (c : ChainParams) (bits : CompactTarget) (t : Target) : Prop :=
  Target.ofCompact? bits = some t ∧ 0 < t.toNat ∧ t ≤ c.maxTarget

theorem Declares.unique {s : Target} (hs : c.Declares bits s) (ht : c.Declares bits t) : s = t :=
  Option.some.inj (hs.1.symm.trans ht.1)

theorem declaredTarget_eq_error_iff {e : VerificationError} :
    c.declaredTarget bits = .error e ↔ e = .badTarget bits ∧ ∀ t, ¬c.Declares bits t := by
  obtain ⟨t, ht⟩ | ⟨e', he'⟩ := ok_or_error (c.declaredTarget bits)
  · rw [ht]
    exact iff_of_false nofun fun h => h.2 t (c.declaredTarget_eq_ok_iff.1 ht)
  · have hnone : ∀ t, ¬c.Declares bits t := by
      intro t ht
      exact nomatch he'.symm.trans (c.declaredTarget_eq_ok_iff.2 ht)
    have hbad : e' = .badTarget bits := by
      rw [declaredTarget] at he'
      split at he'
      · split_ifs at he'
        exact (Except.error.inj he').symm
      · exact (Except.error.inj he').symm
    rw [he', hbad, Except.error.injEq, eq_comm]
    exact (and_iff_left hnone).symm

/-! ## The digest -/

/-- The proof-of-work digest of a header, in internal order. -/
def workDigest (c : ChainParams) (header : Header) : Bytes 32 :=
  c.params.powHash.digest header.bytes

/-- Once a target is declared, two numbers are compared. -/
theorem verifyProofOfWork_of_declares (ht : c.Declares header.bits t) :
    c.verifyProofOfWork header =
      if ofLittleEndian (c.workDigest header).toList ≤ t.toNat then
        .ok (.ofInternal (c.workDigest header))
      else .error (.proofOfWork (.ofInternal (c.workDigest header)) t) := by
  have habove : (PowHash.ofInternal (c.workDigest header)).toTarget > t ↔
      ¬ofLittleEndian (c.workDigest header).toList ≤ t.toNat := by
    rw [← PowHash.toNat_toTarget_ofInternal, not_le]
    rfl
  rw [verifyProofOfWork, c.declaredTarget_eq_ok_iff.2 ht, ok_bind, c.powHash_eq header, mapError_ok,
    ok_bind]
  show (if (PowHash.ofInternal (c.workDigest header)).toTarget > t then _ else _) = _
  rw [if_congr habove rfl rfl, ite_not]
  rfl

/-- Without a usable target nothing is compared. -/
theorem verifyProofOfWork_of_not_declares (hnone : ∀ t, ¬c.Declares header.bits t) :
    c.verifyProofOfWork header = .error (.badTarget header.bits) := by
  rw [verifyProofOfWork, declaredTarget_eq_error_iff.2 ⟨rfl, hnone⟩]
  rfl

/-! ## The verdict -/

/-- A code denotes one usable target or none. -/
theorem declares_or_not (c : ChainParams) (bits : CompactTarget) :
    (∃ t, c.Declares bits t) ∨ ∀ t, ¬c.Declares bits t := by
  rw [← not_exists]
  exact Classical.em _

theorem verifyProofOfWork_eq_ok_iff {hash : PowHash} :
    c.verifyProofOfWork header = .ok hash ↔ hash = .ofInternal (c.workDigest header) ∧
      ∃ t, c.Declares header.bits t ∧ ofLittleEndian (c.workDigest header).toList ≤ t.toNat := by
  obtain ⟨t, ht⟩ | hnone := c.declares_or_not header.bits
  · have hmet : (∃ s, c.Declares header.bits s ∧
        ofLittleEndian (c.workDigest header).toList ≤ s.toNat) ↔
        ofLittleEndian (c.workDigest header).toList ≤ t.toNat := by
      refine ⟨?_, fun h => ⟨t, ht, h⟩⟩
      rintro ⟨s, hs, h⟩
      rwa [← hs.unique ht]
    rw [verifyProofOfWork_of_declares ht, hmet]
    split_ifs with h
    · rw [Except.ok.injEq, and_iff_left h, eq_comm]
    · exact iff_of_false nofun fun hand => h hand.2
  · rw [verifyProofOfWork_of_not_declares hnone]
    refine iff_of_false nofun ?_
    rintro ⟨-, t, ht, -⟩
    exact hnone t ht

theorem verifyProofOfWork_eq_error_iff {e : VerificationError} :
    c.verifyProofOfWork header = .error e ↔
      (e = .badTarget header.bits ∧ ∀ t, ¬c.Declares header.bits t) ∨
        ∃ t, e = .proofOfWork (.ofInternal (c.workDigest header)) t ∧
          c.Declares header.bits t ∧
          t.toNat < ofLittleEndian (c.workDigest header).toList := by
  obtain ⟨t, ht⟩ | hnone := c.declares_or_not header.bits
  · rw [verifyProofOfWork_of_declares ht]
    constructor
    · intro h
      split_ifs at h with hle
      exact .inr ⟨t, (Except.error.inj h).symm, ht, Nat.lt_of_not_le hle⟩
    · rintro (⟨-, hnone⟩ | ⟨s, rfl, hs, hlt⟩)
      · exact absurd ht (hnone t)
      · obtain rfl := hs.unique ht
        exact if_neg (Nat.not_le_of_lt hlt)
  · rw [verifyProofOfWork_of_not_declares hnone, Except.error.injEq]
    constructor
    · rintro rfl
      exact .inl ⟨rfl, hnone⟩
    · rintro (⟨rfl, -⟩ | ⟨t, -, ht, -⟩)
      · rfl
      · exact absurd ht (hnone t)

/-- The check that only answers yes or no sorts the outcomes of the other one. -/
theorem hasValidProofOfWork_iff (c : ChainParams) (header : Header) :
    (c.hasValidProofOfWork header = .ok true ↔ ∃ hash, c.verifyProofOfWork header = .ok hash) ∧
      (c.hasValidProofOfWork header = .ok false ↔
        ∃ hash t, c.verifyProofOfWork header = .error (.proofOfWork hash t)) ∧
      ∀ e, c.hasValidProofOfWork header = .error e ↔
        c.verifyProofOfWork header = .error e ∧ ∀ hash t, e ≠ .proofOfWork hash t := by
  rw [hasValidProofOfWork]
  generalize c.verifyProofOfWork header = verdict
  split
  · next hash => simp
  · next hash t =>
    refine ⟨by simp, by simp, fun e => iff_of_false nofun ?_⟩
    rintro ⟨heq, hother⟩
    exact hother hash t (Except.error.inj heq).symm
  · next e' hother =>
    refine ⟨by simp, iff_of_false nofun ?_, fun e => ?_⟩
    · rintro ⟨hash, t, heq⟩
      exact hother hash t (Except.error.inj heq)
    · rw [Except.error.injEq, Except.error.injEq, iff_self_and]
      rintro rfl
      exact hother

/-- The digest of a header is always computed; let it be read with the least significant byte first.
The check of the work succeeds exactly if the header declares a usable target that this number does
not exceed, and then gives the digest. It reports the digest and the target exactly if the header
declares a usable target below the number, it refuses the code exactly if that denotes no usable
target, and it has no other way to fail. The check that only answers yes or no gives the answer, or
refuses the code, in just these three cases. -/
theorem work_decided_by_target_and_digest (c : ChainParams) (header : Header) :
    c.powHash header = .ok (.ofInternal (c.workDigest header)) ∧
    (∀ hash, c.verifyProofOfWork header = .ok hash ↔
      hash = .ofInternal (c.workDigest header) ∧
        ∃ t, c.Declares header.bits t ∧
          ofLittleEndian (c.workDigest header).toList ≤ t.toNat) ∧
    (∀ e, c.verifyProofOfWork header = .error e ↔
      (e = .badTarget header.bits ∧ ∀ t, ¬c.Declares header.bits t) ∨
        ∃ t, e = .proofOfWork (.ofInternal (c.workDigest header)) t ∧
          c.Declares header.bits t ∧
          t.toNat < ofLittleEndian (c.workDigest header).toList) ∧
    (c.hasValidProofOfWork header = .ok true ↔
      ∃ t, c.Declares header.bits t ∧
        ofLittleEndian (c.workDigest header).toList ≤ t.toNat) ∧
    (c.hasValidProofOfWork header = .ok false ↔
      ∃ t, c.Declares header.bits t ∧
        t.toNat < ofLittleEndian (c.workDigest header).toList) ∧
    ∀ e, c.hasValidProofOfWork header = .error e ↔
      e = .badTarget header.bits ∧ ∀ t, ¬c.Declares header.bits t := by
  obtain ⟨hyes, hno, hrefused⟩ := hasValidProofOfWork_iff c header
  refine ⟨c.powHash_eq header, fun hash => verifyProofOfWork_eq_ok_iff,
    fun e => verifyProofOfWork_eq_error_iff, ?_, ?_, fun e => ?_⟩
  · rw [hyes]
    simp only [verifyProofOfWork_eq_ok_iff, exists_eq_left]
  · rw [hno]
    simp only [verifyProofOfWork_eq_error_iff, reduceCtorEq, false_and, false_or]
    constructor
    · rintro ⟨hash, t, s, -, hs⟩
      exact ⟨s, hs⟩
    · rintro ⟨t, ht⟩
      exact ⟨_, t, t, rfl, ht⟩
  · rw [hrefused, verifyProofOfWork_eq_error_iff]
    constructor
    · rintro ⟨hbad | ⟨t, he, -⟩, hother⟩
      · exact hbad
      · exact absurd he (hother _ t)
    · rintro ⟨rfl, hnone⟩
      exact ⟨.inl ⟨rfl, hnone⟩, nofun⟩

end ChainParams

end HeaderRules
