import HeaderRules.Proofs.HexDigits
import HeaderRules.Target

/-!
# Targets as text

A target is a number below 2²⁵⁶, and sixty-four digits are enough for it. So every text of at most
sixty-four digits, with or without `0x` before them, is read as the target that has the value of the
digits (`Target.ofHex?_eq_some_iff`), and the two written forms, one with all sixty-four digits and
one without leading zeros, are read back.
-/

namespace HeaderRules.Target

open Hex (Spells ofValues)

variable {t : Target} {text : String} {cs digits : List Char} {vs : List Nat} {n : Nat}

/-- A text consists of the given characters, after an optional `0x`. -/
def AfterRadix (cs digits : List Char) : Prop := cs = digits ∨ cs = '0' :: 'x' :: digits

instance (cs digits : List Char) : Decidable (AfterRadix cs digits) :=
  inferInstanceAs (Decidable (_ ∨ _))

/-- What comes after an optional `0x` is what is left when that is dropped, if there is no `x` in
it. -/
theorem dropRadix_eq_iff (hdigits : 'x' ∉ digits) :
    dropRadix cs = digits ↔ AfterRadix cs digits := by
  rw [dropRadix.eq_def, AfterRadix]
  split
  · next rest =>
    have hwith : '0' :: 'x' :: rest ≠ digits := by
      rintro rfl
      exact hdigits (List.mem_cons_of_mem _ List.mem_cons_self)
    rw [List.cons.injEq, List.cons.injEq, and_iff_right rfl, and_iff_right rfl, or_iff_right hwith]
  · next hwithout =>
    exact (or_iff_left (hwithout digits)).symm

theorem not_mem_of_spells (h : Spells digits vs) : 'x' ∉ digits :=
  fun hx => absurd (Hex.exists_spells_iff.1 ⟨vs, h⟩ 'x' hx) (by decide)

theorem toNat_ofNat (h : n < 2 ^ 256) : (ofNat n).toNat = n := by
  rw [toNat, ofNat, BitVec.toNat_ofNat, Nat.mod_eq_of_lt h]

theorem ofNat_eq_iff (h : n < 2 ^ 256) : ofNat n = t ↔ t.toNat = n := by
  rw [← toNat_inj, toNat_ofNat h, eq_comm]

/-- Sixty-four digits denote no more than a target can be. -/
theorem ofValues_lt (h : ∀ v ∈ vs, v < 16) (hlength : vs.length ≤ 64) : ofValues vs < 2 ^ 256 :=
  calc ofValues vs < 16 ^ vs.length := Hex.ofValues_lt h
    _ ≤ 16 ^ 64 := Nat.pow_le_pow_right (by decide) hlength
    _ = 2 ^ 256 := by decide

/-- What is said of the characters without `0x`, if they hold no `x`, is said of some characters
after an optional `0x`. -/
theorem exists_afterRadix_iff {P : List Char → Prop} (hP : ∀ chars, P chars → 'x' ∉ chars) :
    (∃ chars, AfterRadix cs chars ∧ P chars) ↔ P (dropRadix cs) := by
  constructor
  · rintro ⟨chars, hafter, hchars⟩
    rwa [(dropRadix_eq_iff (hP chars hchars)).2 hafter]
  · exact fun hdrop => ⟨_, (dropRadix_eq_iff (hP _ hdrop)).1 rfl, hdrop⟩

/-- The reader of targets accepts at most sixty-four digits after an optional `0x`, and gives the
target that they denote. -/
theorem ofHex?_eq_some_iff : ofHex? text = some t ↔ ∃ digits, AfterRadix text.toList digits ∧
    digits.length ≤ 64 ∧ ∃ vs, Spells digits vs ∧ t.toNat = ofValues vs := by
  rw [exists_afterRadix_iff fun digits h => not_mem_of_spells h.2.choose_spec.1, ofHex?]
  split_ifs with hlength
  · rw [Hex.map_number?_eq_some_iff, and_iff_right hlength]
    refine exists_congr fun vs => and_congr_right fun hvs => ofNat_eq_iff (ofValues_lt hvs.lt ?_)
    rwa [← hvs.length_eq]
  · exact iff_of_false nofun fun h => hlength h.1

/-! ## The written forms -/

theorem toNat_lt_sixteen_pow (t : Target) : t.toNat < 16 ^ 64 := t.value.isLt

/-- The full form of a target consists of sixty-four digits. -/
theorem exists_text_eq (t : Target) : ∃ vs, t.text.toList = vs.map Hex.digit ∧ vs.length = 64 ∧
    (∀ v ∈ vs, v < 16) ∧ ofValues vs = t.toNat := by
  obtain ⟨vs, hfixed, hlength, hlt, hvalue⟩ := Hex.exists_fixed_eq 64 t.toNat
  refine ⟨vs, ?_, hlength, hlt, ?_⟩
  · rw [text, String.toList_ofList, hfixed]
  · rw [hvalue, Nat.mod_eq_of_lt t.toNat_lt_sixteen_pow]

/-- A target is read back from its full form. -/
theorem ofHex?_text (t : Target) : ofHex? t.text = some t := by
  obtain ⟨vs, htext, hlength, hlt, hvalue⟩ := t.exists_text_eq
  refine ofHex?_eq_some_iff.2 ⟨_, .inl htext, ?_, vs, Hex.spells_map_digit hlt, hvalue.symm⟩
  rw [List.length_map, hlength]

/-- A target is read back from its digits without leading zeros. -/
theorem ofHex?_minimal (t : Target) :
    ofHex? (String.ofList ('0' :: 'x' :: Hex.minimal t.toNat)) = some t := by
  obtain ⟨vs, hminimal, hlt, hvalue⟩ := Hex.exists_minimal_eq t.toNat
  have hlength : (Hex.minimal t.toNat).length ≤ 64 :=
    Nat.toDigits_length 16 t.toNat 64 (by decide) t.toNat_lt_sixteen_pow
  refine ofHex?_eq_some_iff.2 ⟨Hex.minimal t.toNat, .inr String.toList_ofList, hlength, vs, ?_,
    hvalue.symm⟩
  rw [hminimal]
  exact Hex.spells_map_digit hlt

end HeaderRules.Target
