import HeaderRules.Digest
import HeaderRules.Proofs.TargetText
import Mathlib.Algebra.BigOperators.Fin

/-!
# The byte orders of a digest

A hash function emits bytes in internal order, the least significant first. What is compared,
written and read afterwards is in one of two orders, and each conversion either turns the bytes
around or leaves them. Numbers settle which: in internal order the byte at index `i` counts for `256
^ i`, and every text is the sixty-four digits of the number that the bytes denote
(`encodeChars_reverse`). So the texts of a digest, of its target and of its block identity are one
text, which is read back as each of them, and texts stand in the order of the numbers
(`byte_orders_agree`).
-/

namespace HeaderRules

open Hex (halves ofValues)
open Outcome

/-! ## Bytes by position -/

/-- The byte at an index. -/
def Bytes.get {n : Nat} (b : Bytes n) (i : Fin n) : UInt8 :=
  b.toList.get (i.cast b.length_toList.symm)

/-- The number that bytes denote is a sum over their positions. -/
theorem ofLittleEndian_eq_sum {n : Nat} (b : Bytes n) :
    ofLittleEndian b.toList = ∑ i : Fin n, (b.get i).toNat * 256 ^ (i : Nat) := by
  obtain ⟨bytes, rfl⟩ := b
  show ofLittleEndian bytes = ∑ i : Fin bytes.length, (bytes.get i).toNat * 256 ^ (i : Nat)
  induction bytes with
  | nil => rfl
  | cons byte bytes ih =>
    have hsplit := Fin.sum_univ_succ fun i : Fin (bytes.length + 1) =>
      ((byte :: bytes).get i).toNat * 256 ^ (i : Nat)
    rw [ofLittleEndian, ih, Finset.mul_sum]
    refine .trans ?_ hsplit.symm
    congr 1
    · exact (Nat.mul_one _).symm
    · refine Finset.sum_congr rfl fun i _ => ?_
      rw [Fin.val_succ, pow_succ, Nat.mul_left_comm, Nat.mul_comm 256]
      rfl

/-! ## Bytes as digits -/

/-- The halves of bytes denote the number that the bytes denote in the opposite order, least
significant first. -/
theorem ofValues_halves_reverse (bytes : List UInt8) :
    ofValues (halves bytes.reverse) = ofLittleEndian bytes := by
  induction bytes with
  | nil => rfl
  | cons b bytes ih =>
    have hlast : halves (b :: bytes).reverse =
        halves bytes.reverse ++ [b.toNat / 16] ++ [b.toNat % 16] := by
      rw [List.reverse_cons, Hex.halves_append, List.append_assoc]
      rfl
    rw [hlast, Hex.ofValues_concat, Hex.ofValues_concat, ih, ofLittleEndian]
    omega

/-- Bytes written most significant first are the digits of the number that they denote. -/
theorem encodeChars_reverse (bytes : List UInt8) :
    Hex.encodeChars bytes.reverse = Hex.fixed (2 * bytes.length) (ofLittleEndian bytes) := by
  obtain ⟨vs, hfixed, hlength, hlt, hvalue⟩ :=
    Hex.exists_fixed_eq (2 * bytes.length) (ofLittleEndian bytes)
  have hsmall : ofLittleEndian bytes < 16 ^ (2 * bytes.length) := by
    rw [pow_mul]
    exact ofLittleEndian_lt bytes
  have hhalves : halves bytes.reverse = vs := by
    refine Hex.eq_of_ofValues_eq ?_ (Hex.halves_lt _) hlt ?_
    · rw [Hex.length_halves, List.length_reverse, hlength]
    · rw [ofValues_halves_reverse, hvalue, Nat.mod_eq_of_lt hsmall]
  rw [hfixed, ← hhalves, Hex.encodeChars_eq]

/-! ## Digests -/

namespace PowHash

/-- A digest is compared as the number that its bytes denote in internal order. -/
theorem toNat_toTarget_ofInternal (digest : Bytes 32) :
    (ofInternal digest).toTarget.toNat = ofLittleEndian digest.toList := by
  have hlt : ofLittleEndian digest.toList < 2 ^ 256 :=
    calc ofLittleEndian digest.toList < 256 ^ digest.toList.length := ofLittleEndian_lt _
      _ = 2 ^ 256 := by rw [digest.length_toList]; decide
  show (Target.ofNat (ofLittleEndian digest.toList.reverse.reverse)).toNat = _
  rw [List.reverse_reverse, Target.toNat_ofNat hlt]

/-- An identity is written like the digest that it comes from. -/
theorem text_toBlockHash (digest : PowHash) : digest.toBlockHash.text = digest.text := by
  rw [Hash256.text, toBlockHash, Bytes.reverse_reverse, text]

/-- A target is written like the digest that it comes from. -/
theorem text_toTarget_ofInternal (digest : Bytes 32) :
    (ofInternal digest).toTarget.text = (ofInternal digest).text := by
  rw [Target.text, toNat_toTarget_ofInternal, text, ofInternal, Bytes.toList_reverse, Hex.encode,
    encodeChars_reverse, digest.length_toList]

theorem toBlockHash_ofInternal (digest : Bytes 32) :
    (ofInternal digest).toBlockHash = ⟨digest⟩ := by
  rw [toBlockHash, ofInternal, Bytes.reverse_reverse]

theorem text_toList (h : PowHash) : h.text.toList = Hex.encodeChars h.bigEndian.toList := by
  rw [text, Hex.encode, String.toList_ofList]

theorem length_text (h : PowHash) : h.text.length = 64 := by
  rw [← String.length_toList, text_toList, Hex.length_encodeChars, Bytes.length_toList]

theorem isLowercaseDigit_of_mem_text {h : PowHash} {c : Char} (hc : c ∈ h.text.toList) :
    Hex.IsLowercaseDigit c := by
  rw [text_toList] at hc
  exact Hex.isLowercaseDigit_of_mem_encodeChars hc

/-- Digests are written in the order of the numbers that they are. -/
theorem text_lt_text_iff (digest digest' : Bytes 32) :
    (ofInternal digest).text < (ofInternal digest').text ↔
      (ofInternal digest).toTarget < (ofInternal digest').toTarget := by
  have hvalue := fun b : Bytes 32 => ofValues_halves_reverse b.toList
  have hlength : (halves digest.toList.reverse).length =
      (halves digest'.toList.reverse).length := by
    rw [Hex.length_halves, Hex.length_halves, List.length_reverse, List.length_reverse,
      digest.length_toList, digest'.length_toList]
  rw [String.lt_iff, text_toList, text_toList, Hex.encodeChars_eq, Hex.encodeChars_eq]
  refine (Hex.map_digit_lt_iff hlength (Hex.halves_lt _) (Hex.halves_lt _)).trans ?_
  rw [hvalue, hvalue, ← toNat_toTarget_ofInternal, ← toNat_toTarget_ofInternal]
  rfl

/-- The text of a digest is read as the target that the digest is. -/
theorem ofHex?_text_ofInternal (digest : Bytes 32) :
    Target.ofHex? (ofInternal digest).text = some (ofInternal digest).toTarget := by
  rw [← text_toTarget_ofInternal, Target.ofHex?_text]

theorem text_eq_text_iff (digest digest' : Bytes 32) :
    (ofInternal digest).text = (ofInternal digest').text ↔
      (ofInternal digest).toTarget = (ofInternal digest').toTarget := by
  constructor
  · intro htext
    have hread := ofHex?_text_ofInternal digest
    rw [htext, ofHex?_text_ofInternal] at hread
    exact (Option.some.inj hread).symm
  · intro htarget
    rw [← text_toTarget_ofInternal, htarget, text_toTarget_ofInternal]

end PowHash

namespace Hash256

variable {s : String} {h : Hash256} {e : HexError}

theorem ofInternalHex_eq_ok_iff :
    ofInternalHex s = .ok h ↔ Hex.decodeBytes 32 s = .ok h.internal := by
  rw [ofInternalHex, map_eq_ok_iff]
  constructor
  · rintro ⟨b, hb, rfl⟩
    exact hb
  · exact fun hb => ⟨_, hb, rfl⟩

/-- What is read in internal order is read in display order with the bytes turned around. -/
theorem ofInternalHex_eq_ok_iff_reverse :
    ofInternalHex s = .ok h ↔ ofDisplayHex s = .ok ⟨h.internal.reverse⟩ := by
  rw [ofInternalHex_eq_ok_iff, ofDisplayHex, map_eq_ok_iff]
  constructor
  · exact fun hb => ⟨_, hb, rfl⟩
  · rintro ⟨b, hb, hreverse⟩
    have : b = h.internal := by
      rw [← b.reverse_reverse, (Hash256.mk.inj hreverse), Bytes.reverse_reverse]
    rw [hb, this]

theorem ofInternalHex_eq_error_iff : ofInternalHex s = .error e ↔ ofDisplayHex s = .error e := by
  rw [ofInternalHex, ofDisplayHex, map_eq_error_iff, map_eq_error_iff]

/-- Either reader accepts exactly sixty-four digits. -/
theorem exists_ofInternalHex_iff :
    (∃ h, ofInternalHex s = .ok h) ↔ s.length = 64 ∧ ∀ c ∈ s.toList, Hex.IsDigit c := by
  rw [← String.length_toList, ← Hex.exists_decodeChars_iff (n := 32)]
  simp only [ofInternalHex_eq_ok_iff]
  exact ⟨fun ⟨h, hb⟩ => ⟨h.internal, hb⟩, fun ⟨b, hb⟩ => ⟨⟨b⟩, hb⟩⟩

/-- A hash is read back from its form in internal order. -/
theorem ofInternalHex_encode (b : Bytes 32) : ofInternalHex (Hex.encode b.toList) = .ok ⟨b⟩ := by
  rw [ofInternalHex_eq_ok_iff, Hex.decodeBytes, Hex.encode, String.toList_ofList,
    Hex.decodeChars_encodeChars]

/-- A hash is read back from its form in display order. -/
theorem ofDisplayHex_text (h : Hash256) : ofDisplayHex h.text = .ok h := by
  have hread : ofInternalHex h.text = .ok ⟨h.internal.reverse⟩ := ofInternalHex_encode _
  rw [ofInternalHex_eq_ok_iff_reverse] at hread
  rwa [Bytes.reverse_reverse] at hread

/-- A reader of display order accepts the same texts. -/
theorem exists_ofDisplayHex_iff : (∃ h, ofDisplayHex s = .ok h) ↔ ∃ h, ofInternalHex s = .ok h := by
  simp only [ofInternalHex_eq_ok_iff_reverse]
  constructor
  · rintro ⟨h, hread⟩
    refine ⟨⟨h.internal.reverse⟩, ?_⟩
    rw [hread, Bytes.reverse_reverse]
  · rintro ⟨h, hread⟩
    exact ⟨_, hread⟩

end Hash256

/-- A digest in internal order is compared as the sum of its bytes, the byte at index `i` times
`256 ^ i`. It, its target and the identity that it gives a block are written as the same sixty-four
lowercase digits. The identity has the bytes of the digest, and it is read from those digits in
display order and from the bytes written as they come in internal order; the target is read from the
digits too.

A text is read in either order exactly if it consists of sixty-four digits of either case. The bytes
that are read in one order are those that are read in the other, turned around, and where there are
none the complaint is the same. Texts of digests are in the order of their targets. -/
theorem byte_orders_agree :
    (∀ digest : Bytes 32,
      let work := PowHash.ofInternal digest
      work.toTarget.toNat = ∑ i : Fin 32, (digest.get i).toNat * 256 ^ (i : Nat) ∧
      (work.text.length = 64 ∧ ∀ c ∈ work.text.toList, Hex.IsLowercaseDigit c) ∧
      work.toTarget.text = work.text ∧ work.toBlockHash.text = work.text ∧
      work.toBlockHash.internal = digest ∧
      Hash256.ofDisplayHex work.text = .ok work.toBlockHash ∧
      Target.ofHex? work.text = some work.toTarget ∧
      Hash256.ofInternalHex (Hex.encode digest.toList) = .ok work.toBlockHash) ∧
    (∀ s : String,
      ((∃ h, Hash256.ofInternalHex s = .ok h) ↔ s.length = 64 ∧ ∀ c ∈ s.toList, Hex.IsDigit c) ∧
      ((∃ h, Hash256.ofDisplayHex s = .ok h) ↔ s.length = 64 ∧ ∀ c ∈ s.toList, Hex.IsDigit c) ∧
      (∀ h, Hash256.ofInternalHex s = .ok h ↔
        Hash256.ofDisplayHex s = .ok ⟨h.internal.reverse⟩) ∧
      ∀ e, Hash256.ofInternalHex s = .error e ↔ Hash256.ofDisplayHex s = .error e) ∧
    ∀ digest digest' : Bytes 32,
      ((PowHash.ofInternal digest).text < (PowHash.ofInternal digest').text ↔
        (PowHash.ofInternal digest).toTarget < (PowHash.ofInternal digest').toTarget) ∧
      ((PowHash.ofInternal digest).text = (PowHash.ofInternal digest').text ↔
        (PowHash.ofInternal digest).toTarget = (PowHash.ofInternal digest').toTarget) := by
  refine ⟨fun digest => ?_, fun s => ?_, fun digest digest' => ?_⟩
  · intro work
    have hidentity : work.toBlockHash = ⟨digest⟩ := PowHash.toBlockHash_ofInternal digest
    refine ⟨?_, ⟨work.length_text, fun c => PowHash.isLowercaseDigit_of_mem_text⟩,
      PowHash.text_toTarget_ofInternal digest, work.text_toBlockHash, ?_, ?_,
      PowHash.ofHex?_text_ofInternal digest, ?_⟩
    · rw [PowHash.toNat_toTarget_ofInternal, ofLittleEndian_eq_sum]
    · rw [hidentity]
    · rw [← work.text_toBlockHash, Hash256.ofDisplayHex_text]
    · rw [hidentity, Hash256.ofInternalHex_encode]
  · exact ⟨Hash256.exists_ofInternalHex_iff,
      Hash256.exists_ofDisplayHex_iff.trans Hash256.exists_ofInternalHex_iff,
      fun h => Hash256.ofInternalHex_eq_ok_iff_reverse,
      fun e => Hash256.ofInternalHex_eq_error_iff⟩
  · exact ⟨PowHash.text_lt_text_iff digest digest', PowHash.text_eq_text_iff digest digest'⟩

end HeaderRules
