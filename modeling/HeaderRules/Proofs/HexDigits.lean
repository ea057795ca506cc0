import HeaderRules.Hex
import HeaderRules.Proofs.LittleEndian
import HeaderRules.Proofs.Outcome
import Mathlib.Data.List.Forall2
import Mathlib.Data.Nat.Digits.Lemmas

/-!
# Digits and the numbers and bytes that they spell

A text is hexadecimal if each of its characters is a digit of either case, and then it spells a list
of values below sixteen (`Spells`). This module says what every reader and writer of the library
does in terms of these values, most significant first.

Bytes are written as their halves, and the reader of bytes accepts a text exactly if it spells the
halves of some bytes (`decode_eq_ok_iff`, and `decodeChars_eq_ok_iff` where their number is given),
in letters of either case (`spells_map_toLower_iff`). The reader looks at UTF-8 and not at
characters, but a character that is no ASCII digit begins with a byte that is none, so nothing else
gets through. A number is written by digits whose value to the base sixteen it is, with a fixed
number of digits or without leading zeros, and read from any digits (`number?_eq_some_iff`).
-/

namespace HeaderRules.Hex

open Outcome

variable {c : Char} {cs : List Char} {v n : Nat} {vs us : List Nat} {bytes : List UInt8}

/-! ## Digits -/

/-- A digit of either case. -/
def IsDigit (c : Char) : Prop :=
  ('0' ≤ c ∧ c ≤ '9') ∨ ('a' ≤ c ∧ c ≤ 'f') ∨ ('A' ≤ c ∧ c ≤ 'F')

/-- A digit as it is written, in lowercase. -/
def IsLowercaseDigit (c : Char) : Prop := ('0' ≤ c ∧ c ≤ '9') ∨ ('a' ≤ c ∧ c ≤ 'f')

instance : DecidablePred IsDigit := fun _ => inferInstanceAs (Decidable (_ ∨ _ ∨ _))

instance : DecidablePred IsLowercaseDigit := fun _ => inferInstanceAs (Decidable (_ ∨ _))

theorem IsLowercaseDigit.isDigit (h : IsLowercaseDigit c) : IsDigit c :=
  h.elim .inl (.inr ∘ .inl)

theorem isDigit_of_charValue? (h : charValue? c = some v) : IsDigit c := by
  rw [charValue?] at h
  split_ifs at h with hdecimal hlower hupper
  · exact .inl hdecimal
  · exact .inr (.inl hlower)
  · exact .inr (.inr hupper)

theorem exists_charValue? (h : IsDigit c) : ∃ v, charValue? c = some v := by
  rw [charValue?]
  split_ifs with hdecimal hlower hupper
  · exact ⟨_, rfl⟩
  · exact ⟨_, rfl⟩
  · exact ⟨_, rfl⟩
  · rcases h with h | h | h
    · exact absurd h hdecimal
    · exact absurd h hlower
    · exact absurd h hupper

/-- A digit is an ASCII character. -/
theorem IsDigit.toNat_lt (h : IsDigit c) : c.toNat < 128 := by
  rcases h with h | h | h
  · exact (UInt32.le_iff_toNat_le.1 h.2).trans_lt (by decide)
  · exact (UInt32.le_iff_toNat_le.1 h.2).trans_lt (by decide)
  · exact (UInt32.le_iff_toNat_le.1 h.2).trans_lt (by decide)

/-- What holds for the ASCII characters one by one holds for each of them. -/
theorem of_ascii {P : Char → Prop} (h : ∀ n < 128, P (Char.ofNat n)) (hc : c.toNat < 128) :
    P c := by
  rw [← c.ofNat_toNat]
  exact h c.toNat hc

/-- A digit has one value, the one that its lowercase form is written for. -/
theorem charValue?_spec (h : charValue? c = some v) : v < 16 ∧ c.toLower = digit v := by
  have hascii := (isDigit_of_charValue? h).toNat_lt
  refine of_ascii (P := fun c => ∀ v ∈ charValue? c, v < 16 ∧ c.toLower = digit v) ?_ hascii v h
  decide +kernel

theorem charValue?_digit : ∀ v < 16, charValue? (digit v) = some v := by decide

/-- The value of a digit does not depend on its case. -/
theorem charValue?_toLower (c : Char) : charValue? c.toLower = charValue? c := by
  by_cases hascii : c.toNat < 128
  · refine of_ascii (P := fun c => charValue? c.toLower = charValue? c) ?_ hascii
    decide +kernel
  · have hupper : ¬(c.val ≥ 'A'.val ∧ c.val ≤ 'Z'.val) := fun h =>
      hascii ((UInt32.le_iff_toNat_le.1 h.2).trans_lt (by decide))
    exact congrArg charValue? (dif_neg hupper)

theorem isLowercaseDigit_digit : ∀ v < 16, IsLowercaseDigit (digit v) := by decide

theorem digit_inj (hv : v < 16) {u : Nat} (hu : u < 16) : digit v = digit u ↔ v = u := by
  refine ⟨fun h => ?_, congrArg digit⟩
  exact Option.some.inj ((charValue?_digit v hv).symm.trans (h ▸ charValue?_digit u hu))

/-- Digits are ordered as their values. -/
theorem digit_lt_digit_iff : ∀ v < 16, ∀ u < 16, digit v < digit u ↔ v < u := by decide

/-! ## Digits in UTF-8 -/

/-- The byte of an ASCII character has the value of the character, if it has one. -/
theorem value?_of_ascii (h : c.toNat < 128) :
    value? (UInt8.ofNat c.toNat) = (charValue? c).map UInt8.ofNat := by
  refine of_ascii (P := fun c => value? (UInt8.ofNat c.toNat) = (charValue? c).map UInt8.ofNat) ?_ h
  decide +kernel

/-- The upper half of the bytes holds no digits. -/
theorem value?_of_le {byte : UInt8} (h : 128 ≤ byte.toNat) : value? byte = none := by
  have habove : ∀ bound : UInt8, bound.toNat < 128 → ¬byte ≤ bound := by
    intro bound hbound hle
    have := UInt8.le_iff_toNat_le.1 hle
    omega
  rw [value?, if_neg fun h => habove _ (by decide) h.2, if_neg fun h => habove _ (by decide) h.2,
    if_neg fun h => habove _ (by decide) h.2]

/-- A character that is not in ASCII begins with a byte of the upper half. -/
theorem exists_utf8EncodeChar_of_le (h : 128 ≤ c.toNat) :
    ∃ byte rest, String.utf8EncodeChar c = byte :: rest ∧ 128 ≤ byte.toNat := by
  have hlead : ∀ low high, 192 ≤ high → low + high < 256 →
      128 ≤ (UInt8.ofNat (low + high)).toNat := by
    intro low high hhigh hlt
    rw [UInt8.toNat_ofNat']
    omega
  have hascii : ¬c.val.toNat ≤ 127 := by
    have : c.val.toNat = c.toNat := rfl
    omega
  rw [String.utf8EncodeChar.eq_1, if_neg hascii]
  split_ifs
  · exact ⟨_, _, rfl, hlead _ _ (by decide) (by omega)⟩
  · exact ⟨_, _, rfl, hlead _ _ (by decide) (by omega)⟩
  · exact ⟨_, _, rfl, hlead _ _ (by decide) (by omega)⟩

/-- A text begins with the byte of a digit if its first character is that digit, and with no digit
byte if its first character is no digit. -/
theorem utf8_cons_cases (c : Char) (cs : List Char) :
    (∃ byte v, utf8 (c :: cs) = byte :: utf8 cs ∧ charValue? c = some v ∧
      value? byte = some (UInt8.ofNat v)) ∨
    ∃ byte rest, utf8 (c :: cs) = byte :: rest ∧ charValue? c = none ∧ value? byte = none := by
  by_cases hascii : c.toNat < 128
  · have hsingle : utf8 (c :: cs) = UInt8.ofNat c.toNat :: utf8 cs := by
      have hle : c.val.toNat ≤ 127 := Nat.le_of_lt_succ hascii
      rw [utf8, List.flatMap_cons, String.utf8EncodeChar.eq_1, if_pos hle]
      rfl
    have hvalue := value?_of_ascii hascii
    cases hc : charValue? c with
    | none => exact .inr ⟨_, _, hsingle, rfl, by rw [hvalue, hc, Option.map_none]⟩
    | some v => exact .inl ⟨_, v, hsingle, rfl, by rw [hvalue, hc, Option.map_some]⟩
  · obtain ⟨byte, rest, hbytes, hbyte⟩ := exists_utf8EncodeChar_of_le (Nat.le_of_not_lt hascii)
    have hnone : charValue? c = none := by
      by_contra hsome
      obtain ⟨v, hv⟩ := Option.ne_none_iff_exists'.1 hsome
      exact hascii (isDigit_of_charValue? hv).toNat_lt
    refine .inr ⟨byte, rest ++ utf8 cs, ?_, hnone, value?_of_le hbyte⟩
    rw [utf8, List.flatMap_cons, hbytes, List.cons_append]
    rfl

/-! ## Texts of digits -/

/-- The characters are digits with the given values. -/
def Spells (cs : List Char) (vs : List Nat) : Prop :=
  List.Forall₂ (fun c v => charValue? c = some v) cs vs

theorem exists_spells_iff : (∃ vs, Spells cs vs) ↔ ∀ c ∈ cs, IsDigit c := by
  induction cs with
  | nil => exact iff_of_true ⟨[], .nil⟩ nofun
  | cons c cs ih =>
    rw [List.forall_mem_cons, ← ih]
    constructor
    · rintro ⟨_, _ | ⟨hc, hcs⟩⟩
      exact ⟨isDigit_of_charValue? hc, _, hcs⟩
    · rintro ⟨hc, vs, hcs⟩
      obtain ⟨v, hv⟩ := exists_charValue? hc
      exact ⟨v :: vs, .cons hv hcs⟩

theorem Spells.lt (h : Spells cs vs) : ∀ v ∈ vs, v < 16 := by
  induction h with
  | nil => exact nofun
  | cons hc _ ih => exact List.forall_mem_cons.2 ⟨(charValue?_spec hc).1, ih⟩

/-- What a text spells does not depend on the case of its digits. -/
theorem spells_map_toLower_iff : Spells (cs.map Char.toLower) vs ↔ Spells cs vs := by
  rw [Spells, List.forall₂_map_left_iff]
  simp only [charValue?_toLower, Spells]

/-- In lowercase a text is the written form of the values that it spells. -/
theorem Spells.map_toLower (h : Spells cs vs) : cs.map Char.toLower = vs.map digit := by
  induction h with
  | nil => rfl
  | cons hc _ ih => rw [List.map_cons, List.map_cons, (charValue?_spec hc).2, ih]

/-- The written form of values spells them. -/
theorem spells_map_digit (h : ∀ v ∈ vs, v < 16) : Spells (vs.map digit) vs := by
  induction vs with
  | nil => exact .nil
  | cons v vs ih =>
    obtain ⟨hv, hvs⟩ := List.forall_mem_cons.1 h
    exact .cons (charValue?_digit v hv) (ih hvs)

/-! ## Bytes -/

/-- The halves of bytes, the high one of each first. -/
def halves (bytes : List UInt8) : List Nat := bytes.flatMap fun b => [b.toNat / 16, b.toNat % 16]

theorem halves_cons (b : UInt8) (bytes : List UInt8) :
    halves (b :: bytes) = b.toNat / 16 :: b.toNat % 16 :: halves bytes := rfl

theorem halves_append (bytes bytes' : List UInt8) :
    halves (bytes ++ bytes') = halves bytes ++ halves bytes' :=
  List.flatMap_append ..

theorem length_halves (bytes : List UInt8) : (halves bytes).length = 2 * bytes.length := by
  induction bytes with
  | nil => rfl
  | cons b bytes ih =>
    rw [halves_cons, List.length_cons, List.length_cons, List.length_cons, ih]
    omega

theorem halves_lt (bytes : List UInt8) : ∀ v ∈ halves bytes, v < 16 := by
  induction bytes with
  | nil => exact nofun
  | cons b bytes ih =>
    have hb := b.toNat_lt
    exact List.forall_mem_cons.2 ⟨by omega, List.forall_mem_cons.2 ⟨by omega, ih⟩⟩

/-- Bytes are written as their halves. -/
theorem encodeChars_eq (bytes : List UInt8) : encodeChars bytes = (halves bytes).map digit := by
  induction bytes with
  | nil => rfl
  | cons b bytes ih => rw [encodeChars, ih, halves_cons, List.map_cons, List.map_cons]

theorem spells_encodeChars (bytes : List UInt8) : Spells (encodeChars bytes) (halves bytes) := by
  rw [encodeChars_eq]
  exact spells_map_digit (halves_lt bytes)

/-- A byte is made of its halves, and of no other values below sixteen. -/
theorem eq_halves_iff {high low : Nat} (hhigh : high < 16) (hlow : low < 16) (b : UInt8) :
    UInt8.ofNat high * 16 + UInt8.ofNat low = b ↔ b.toNat / 16 = high ∧ b.toNat % 16 = low := by
  have hb := b.toNat_lt
  have hsixteen : (16 : UInt8).toNat = 16 := rfl
  rw [← UInt8.toNat_inj, UInt8.toNat_add, UInt8.toNat_mul, UInt8.toNat_ofNat', UInt8.toNat_ofNat',
    hsixteen]
  omega

theorem digitAt_eq_ok_iff {byte w : UInt8} {index : Nat} :
    digitAt byte index = .ok w ↔ value? byte = some w := by
  rw [digitAt]
  cases value? byte with
  | none => exact iff_of_false nofun nofun
  | some u => rw [Except.ok.injEq, Option.some.injEq]

theorem decodePairs_cons_cons_eq_ok_iff {high low : UInt8} {rest : List UInt8} {index : Nat} :
    decodePairs index (high :: low :: rest) = .ok bytes ↔
      ∃ h l tail, value? high = some h ∧ value? low = some l ∧
        decodePairs (index + 2) rest = .ok tail ∧ bytes = (h * 16 + l) :: tail := by
  simp only [decodePairs, bind_eq_ok_iff, digitAt_eq_ok_iff, pure, Except.pure, Except.ok.injEq,
    eq_comm (a := _ :: _)]
  constructor
  · rintro ⟨h, hh, l, hl, tail, htail, rfl⟩
    exact ⟨h, l, tail, hh, hl, htail, rfl⟩
  · rintro ⟨h, l, tail, hh, hl, htail, rfl⟩
    exact ⟨h, hh, l, hl, tail, htail, rfl⟩

theorem decodePairs_ne_ok {byte : UInt8} {rest : List UInt8} {index : Nat}
    (hnone : value? byte = none) (heven : (byte :: rest).length % 2 = 0) :
    decodePairs index (byte :: rest) ≠ .ok bytes := by
  intro h
  cases rest with
  | nil => exact absurd heven Nat.one_ne_zero
  | cons low rest =>
    obtain ⟨_, _, _, hsome, -⟩ := decodePairs_cons_cons_eq_ok_iff.1 h
    exact nomatch hnone.symm.trans hsome

theorem not_spells_of_none (hnone : charValue? c = none) : ¬Spells (c :: cs) vs := by
  rintro (_ | ⟨hc, -⟩)
  exact nomatch hnone.symm.trans hc

/-- A text with an even number of bytes in UTF-8 is read as the bytes whose halves it spells. -/
theorem decodePairs_eq_ok_iff : ∀ (cs : List Char) (index : Nat) (bytes : List UInt8),
    (utf8 cs).length % 2 = 0 →
      (decodePairs index (utf8 cs) = .ok bytes ↔ Spells cs (halves bytes))
  | [], index, [], _ => iff_of_true rfl .nil
  | [], index, b :: bytes, _ => iff_of_false nofun nofun
  | [c], index, bytes, heven => by
    obtain ⟨byte, v, hutf8, -, -⟩ | ⟨byte, rest, hutf8, hnone, hbyte⟩ := utf8_cons_cases c []
    · rw [hutf8] at heven
      exact absurd heven Nat.one_ne_zero
    · rw [hutf8] at heven ⊢
      exact iff_of_false (decodePairs_ne_ok hbyte heven) (not_spells_of_none hnone)
  | c :: d :: cs, index, bytes, heven => by
    obtain ⟨byte, v, hutf8, hv, hbyte⟩ | ⟨byte, rest, hutf8, hnone, hbyte⟩ :=
      utf8_cons_cases c (d :: cs)
    · obtain ⟨byte', u, hutf8', hu, hbyte'⟩ | ⟨byte', rest, hutf8', hnone, hbyte'⟩ :=
        utf8_cons_cases d cs
      · rw [hutf8, hutf8'] at heven ⊢
        have hrest : (utf8 cs).length % 2 = 0 := by
          rw [List.length_cons, List.length_cons] at heven
          omega
        have hcs := fun tail => decodePairs_eq_ok_iff cs (index + 2) tail hrest
        rw [decodePairs_cons_cons_eq_ok_iff]
        constructor
        · rintro ⟨h, l, tail, hh, hl, htail, rfl⟩
          obtain rfl := Option.some.inj (hbyte.symm.trans hh)
          obtain rfl := Option.some.inj (hbyte'.symm.trans hl)
          obtain ⟨hhigh, hlow⟩ :=
            (eq_halves_iff (charValue?_spec hv).1 (charValue?_spec hu).1 _).1 rfl
          rw [halves_cons, hhigh, hlow]
          exact .cons hv (.cons hu ((hcs tail).1 htail))
        · intro h
          cases bytes with
          | nil => cases h
          | cons b tail =>
            obtain _ | ⟨hhigh, _ | ⟨hlow, htail⟩⟩ := h
            obtain rfl := Option.some.inj (hv.symm.trans hhigh)
            obtain rfl := Option.some.inj (hu.symm.trans hlow)
            refine ⟨_, _, tail, hbyte, hbyte', (hcs tail).2 htail, ?_⟩
            rw [(eq_halves_iff (charValue?_spec hv).1 (charValue?_spec hu).1 b).2 ⟨rfl, rfl⟩]
      · rw [hutf8, hutf8']
        refine iff_of_false (fun h => ?_) ?_
        · obtain ⟨_, _, _, -, hsome, -⟩ := decodePairs_cons_cons_eq_ok_iff.1 h
          exact nomatch hbyte'.symm.trans hsome
        · generalize halves bytes = vs
          rintro (_ | ⟨-, h⟩)
          exact not_spells_of_none hnone h
    · rw [hutf8] at heven ⊢
      exact iff_of_false (decodePairs_ne_ok hbyte heven) (not_spells_of_none hnone)

theorem length_utf8_of_spells (h : Spells cs vs) : (utf8 cs).length = cs.length := by
  induction h with
  | nil => rfl
  | @cons c v cs vs hc _ ih =>
    obtain ⟨byte, _, hutf8, -⟩ | ⟨_, _, -, hnone, -⟩ := utf8_cons_cases c cs
    · rw [hutf8, List.length_cons, List.length_cons, ih]
    · exact nomatch hnone.symm.trans hc

theorem length_utf8_of_spells_halves (h : Spells cs (halves bytes)) :
    (utf8 cs).length = 2 * bytes.length := by
  rw [length_utf8_of_spells h, List.Forall₂.length_eq h, length_halves]

/-- The reader of any number of bytes accepts exactly the texts that spell the halves of bytes. -/
theorem decode_eq_ok_iff {text : String} :
    decode text = .ok bytes ↔ Spells text.toList (halves bytes) := by
  simp only [decode]
  constructor
  · intro h
    split_ifs at h with hodd
    exact (decodePairs_eq_ok_iff _ 0 bytes (by omega)).1 h
  · intro h
    have hlength := length_utf8_of_spells_halves h
    rw [if_neg (by omega)]
    exact (decodePairs_eq_ok_iff _ 0 bytes (by omega)).2 h

theorem toLower_eq_iff {text text' : String} : text.toLower = text'.toLower ↔
    text.toList.map Char.toLower = text'.toList.map Char.toLower := by
  have hchars : ∀ s : String, s.toLower.toList = s.toList.map Char.toLower :=
    fun s => String.toList_map
  rw [← String.toList_inj, hchars, hchars]

/-- Texts that differ in the case of letters only are read alike. -/
theorem decode_eq_ok_iff_of_toLower_eq {text text' : String} (h : text.toLower = text'.toLower) :
    decode text = .ok bytes ↔ decode text' = .ok bytes := by
  rw [decode_eq_ok_iff, decode_eq_ok_iff, ← spells_map_toLower_iff, toLower_eq_iff.1 h,
    spells_map_toLower_iff]

/-- The reader of bytes accepts exactly the texts that spell the halves of bytes, as many as it is
asked for. -/
theorem decodeChars_eq_ok_iff {n : Nat} {b : Bytes n} :
    decodeChars n cs = .ok b ↔ Spells cs (halves b.toList) := by
  simp only [decodeChars]
  constructor
  · intro h
    split_ifs at h with hodd hlength
    have heven : (utf8 cs).length % 2 = 0 := by omega
    split at h
    · next bytes hbytes =>
      rw [← Except.ok.inj h]
      exact (decodePairs_eq_ok_iff cs 0 bytes heven).1 hbytes
    · exact nomatch h
  · intro h
    have hlength : (utf8 cs).length = 2 * n := by
      rw [length_utf8_of_spells_halves h, b.length_toList]
    have heven : (utf8 cs).length % 2 = 0 := by omega
    have hread := (decodePairs_eq_ok_iff cs 0 b.toList heven).2 h
    rw [if_neg (by omega), dif_neg (not_not_intro (by omega))]
    split
    · next bytes hbytes =>
      exact congrArg Except.ok (Bytes.ext (Except.ok.inj (hbytes.symm.trans hread)))
    · next e herror => exact nomatch herror.symm.trans hread

theorem exists_halves_eq : ∀ {vs : List Nat} (n : Nat), vs.length = 2 * n → (∀ v ∈ vs, v < 16) →
    ∃ b : Bytes n, halves b.toList = vs
  | [], n, hlength, _ => by
    obtain rfl : n = 0 := by simpa using hlength.symm
    exact ⟨⟨[], rfl⟩, rfl⟩
  | [v], n, hlength, _ => by
    rw [List.length_singleton] at hlength
    omega
  | high :: low :: vs, n, hlength, hlt => by
    obtain ⟨hhigh, hlow, hvs⟩ : high < 16 ∧ low < 16 ∧ ∀ v ∈ vs, v < 16 := by
      simpa only [List.forall_mem_cons] using hlt
    obtain ⟨n, rfl⟩ : ∃ m, n = m + 1 := by
      refine Nat.exists_eq_succ_of_ne_zero ?_
      rintro rfl
      cases hlength
    obtain ⟨b, hb⟩ := exists_halves_eq n (by simpa [Nat.mul_succ] using hlength) hvs
    obtain ⟨hdiv, hmod⟩ := (eq_halves_iff hhigh hlow _).1 rfl
    refine ⟨⟨(UInt8.ofNat high * 16 + UInt8.ofNat low) :: b.toList, by simp⟩, ?_⟩
    rw [halves_cons, hdiv, hmod, hb]

/-- The reader of `n` bytes accepts exactly the texts of `2 n` digits. -/
theorem exists_decodeChars_iff {n : Nat} :
    (∃ b, decodeChars n cs = .ok b) ↔ cs.length = 2 * n ∧ ∀ c ∈ cs, IsDigit c := by
  simp only [decodeChars_eq_ok_iff, ← exists_spells_iff]
  constructor
  · rintro ⟨b, h⟩
    refine ⟨?_, _, h⟩
    rw [List.Forall₂.length_eq h, length_halves, b.length_toList]
  · rintro ⟨hlength, vs, h⟩
    obtain ⟨b, rfl⟩ := exists_halves_eq n ((List.Forall₂.length_eq h).symm.trans hlength) h.lt
    exact ⟨b, h⟩

/-- The bytes read from a text are written as the text in lowercase. -/
theorem encodeChars_of_decodeChars {n : Nat} {b : Bytes n} (h : decodeChars n cs = .ok b) :
    encodeChars b.toList = cs.map Char.toLower := by
  rw [(decodeChars_eq_ok_iff.1 h).map_toLower, encodeChars_eq]

/-- A byte string is read back from its written form. -/
theorem decodeChars_encodeChars {n : Nat} (b : Bytes n) :
    decodeChars n (encodeChars b.toList) = .ok b :=
  decodeChars_eq_ok_iff.2 (spells_encodeChars b.toList)

theorem length_encodeChars (bytes : List UInt8) :
    (encodeChars bytes).length = 2 * bytes.length := by
  rw [encodeChars_eq, List.length_map, length_halves]

theorem isLowercaseDigit_of_mem_encodeChars (h : c ∈ encodeChars bytes) : IsLowercaseDigit c := by
  rw [encodeChars_eq, List.mem_map] at h
  obtain ⟨v, hv, rfl⟩ := h
  exact isLowercaseDigit_digit v (halves_lt bytes v hv)

/-! ## Numbers -/

/-- The number that digits with the given values denote, the most significant first. -/
def ofValues (vs : List Nat) : Nat := Nat.ofDigits 16 vs.reverse

theorem ofValues_concat (vs : List Nat) (v : Nat) :
    ofValues (vs ++ [v]) = 16 * ofValues vs + v := by
  rw [ofValues, List.reverse_append, List.reverse_singleton, List.singleton_append,
    Nat.ofDigits_cons, Nat.add_comm]
  rfl

theorem ofValues_cons (v : Nat) (vs : List Nat) :
    ofValues (v :: vs) = 16 ^ vs.length * v + ofValues vs := by
  rw [ofValues, List.reverse_cons, Nat.ofDigits_append, Nat.ofDigits_singleton, List.length_reverse,
    Nat.add_comm]
  rfl

theorem ofValues_lt (h : ∀ v ∈ vs, v < 16) : ofValues vs < 16 ^ vs.length := by
  have hreverse : ∀ v ∈ vs.reverse, v < 16 := fun v hv => h v (List.mem_reverse.1 hv)
  rw [← List.length_reverse]
  exact Nat.ofDigits_lt_base_pow_length (by decide) hreverse

/-- Values of digits are known from their number and from what they denote. -/
theorem eq_of_ofValues_eq (hlength : vs.length = us.length) (hvs : ∀ v ∈ vs, v < 16)
    (hus : ∀ u ∈ us, u < 16) (h : ofValues vs = ofValues us) : vs = us := by
  have hreverse : vs.reverse.length = us.reverse.length := by
    rw [List.length_reverse, List.length_reverse, hlength]
  exact List.reverse_injective (Nat.ofDigits_inj_of_len_eq (by decide) hreverse
    (fun v hv => hvs v (List.mem_reverse.1 hv)) (fun u hu => hus u (List.mem_reverse.1 hu)) h)

/-- Of two numbers in parts the leading parts are compared first. -/
theorem mul_add_lt_mul_add_iff {base x y : Nat} (u v : Nat) (hx : x < base) (hy : y < base) :
    base * v + x < base * u + y ↔ v < u ∨ v = u ∧ x < y := by
  rcases lt_trichotomy v u with h | rfl | h
  · have hstep : base * v + base ≤ base * u := Nat.mul_le_mul_left base h
    exact iff_of_true (by omega) (.inl h)
  · simp only [Nat.add_lt_add_iff_left, lt_irrefl, true_and, false_or]
  · have hstep : base * u + base ≤ base * v := Nat.mul_le_mul_left base h
    exact iff_of_false (by omega) (by omega)

/-- Written digits are in the order of the numbers that they denote, if there are as many of them
on both sides. -/
theorem map_digit_lt_iff (hlength : vs.length = us.length) (hvs : ∀ v ∈ vs, v < 16)
    (hus : ∀ u ∈ us, u < 16) : vs.map digit < us.map digit ↔ ofValues vs < ofValues us := by
  induction vs generalizing us with
  | nil =>
    obtain rfl := List.length_eq_zero_iff.1 hlength.symm
    exact iff_of_false (List.not_lt_nil _) (lt_irrefl _)
  | cons v vs ih =>
    cases us with
    | nil => cases hlength
    | cons u us =>
      obtain ⟨hv, hvs⟩ := List.forall_mem_cons.1 hvs
      obtain ⟨hu, hus⟩ := List.forall_mem_cons.1 hus
      have hlength : vs.length = us.length := Nat.succ.inj hlength
      have hrest : ofValues vs < 16 ^ us.length := hlength ▸ ofValues_lt hvs
      rw [List.map_cons, List.map_cons, List.cons_lt_cons_iff, digit_lt_digit_iff v hv u hu,
        digit_inj hv hu, ih hlength hvs hus, ofValues_cons, ofValues_cons, hlength,
        mul_add_lt_mul_add_iff u v hrest (ofValues_lt hus)]

/-- A number is read from digits, after the number that stands before them. -/
theorem number?_eq_some_iff {acc : Nat} :
    number? acc cs = some n ↔ ∃ vs, Spells cs vs ∧ n = 16 ^ vs.length * acc + ofValues vs := by
  induction cs generalizing acc with
  | nil =>
    constructor
    · intro h
      obtain rfl := Option.some.inj h
      exact ⟨[], .nil, by simp [ofValues]⟩
    · rintro ⟨_, _ | _, rfl⟩
      simp [number?, ofValues]
  | cons c cs ih =>
    have hvalue : ∀ v vs, 16 ^ vs.length * (16 * acc + v) + ofValues vs =
        16 ^ (v :: vs).length * acc + ofValues (v :: vs) := by
      intro v vs
      rw [ofValues_cons, List.length_cons, pow_succ]
      ring
    simp only [number?, Option.bind_eq_some_iff, ih]
    constructor
    · rintro ⟨v, hv, vs, hvs, rfl⟩
      exact ⟨v :: vs, .cons hv hvs, hvalue v vs⟩
    · rintro ⟨_, _ | ⟨hv, hvs⟩, rfl⟩
      exact ⟨_, hv, _, hvs, (hvalue _ _).symm⟩

theorem map_number?_eq_some_iff {α : Type} {f : Nat → α} {a : α} :
    (number? 0 cs).map f = some a ↔ ∃ vs, Spells cs vs ∧ f (ofValues vs) = a := by
  simp only [Option.map_eq_some_iff, number?_eq_some_iff, Nat.mul_zero, Nat.zero_add]
  constructor
  · rintro ⟨_, ⟨vs, hvs, rfl⟩, ha⟩
    exact ⟨vs, hvs, ha⟩
  · rintro ⟨vs, hvs, ha⟩
    exact ⟨_, ⟨vs, hvs, rfl⟩, ha⟩

/-- The fixed form of a number is made of the digits of its value below a power of sixteen. -/
theorem exists_fixed_eq (width n : Nat) : ∃ vs, fixed width n = vs.map digit ∧ vs.length = width ∧
    (∀ v ∈ vs, v < 16) ∧ ofValues vs = n % 16 ^ width := by
  induction width generalizing n with
  | zero => exact ⟨[], rfl, rfl, nofun, (Nat.mod_one n).symm⟩
  | succ width ih =>
    obtain ⟨vs, hfixed, hlength, hlt, hvalue⟩ := ih (n / 16)
    have hlast : n % 16 < 16 := Nat.mod_lt n (by decide)
    refine ⟨vs ++ [n % 16], ?_, ?_, ?_, ?_⟩
    · rw [fixed, hfixed, List.map_append, List.map_singleton]
    · rw [List.length_append, hlength, List.length_singleton]
    · simpa only [List.forall_mem_append, List.forall_mem_singleton] using ⟨hlt, hlast⟩
    · rw [ofValues_concat, hvalue, pow_succ, Nat.mul_comm (16 ^ width), Nat.mod_mul, Nat.add_comm]

/-- The shortest form of a number is made of digits that denote it. -/
theorem exists_minimal_eq (n : Nat) : ∃ vs, minimal n = vs.map digit ∧ (∀ v ∈ vs, v < 16) ∧
    ofValues vs = n := by
  induction n using Nat.strong_induction_on with
  | _ n ih =>
    rw [minimal, Nat.toDigits_eq_if (by decide)]
    split_ifs with hlt
    · exact ⟨[n], rfl, List.forall_mem_singleton.2 hlt, Nat.ofDigits_singleton⟩
    · obtain ⟨vs, hminimal, hvs, hvalue⟩ := ih (n / 16) (by omega)
      have hlast : n % 16 < 16 := Nat.mod_lt n (by decide)
      refine ⟨vs ++ [n % 16], ?_, ?_, ?_⟩
      · rw [← minimal, hminimal, List.map_append, List.map_singleton]
        rfl
      · simpa only [List.forall_mem_append, List.forall_mem_singleton] using ⟨hvs, hlast⟩
      · rw [ofValues_concat, hvalue]
        omega

end HeaderRules.Hex
