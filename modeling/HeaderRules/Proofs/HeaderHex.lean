import HeaderRules.Header
import HeaderRules.Proofs.HexDigits
import Mathlib.Logic.ExistsUnique

/-!
# Headers as text

Headers and lists of eighty bytes are the same thing in two shapes (`Header.ofBytes_bytes`,
`Header.bytes_ofBytes`). In text, a header is its eighty bytes in hexadecimal. The form is made of
digits alone, which are single bytes in UTF-8 and no blanks, so nothing is trimmed from it, and any
blanks around it are trimmed away. What is left of a text after trimming is accepted exactly if it
consists of one hundred and sixty digits of either case, and then it is the form of the header in
lowercase (`header_text_denotes_one_header`).
-/

namespace HeaderRules

/-! ## Trimming -/

namespace Blank

open Hex (IsDigit)

/-- A digit is no blank. -/
theorem isBlank_of_isDigit {c : Char} (h : IsDigit c) : isBlank c = false := by
  refine Hex.of_ascii (P := fun c => IsDigit c → isBlank c = false) ?_ h.toNat_lt h
  decide +kernel

theorem dropWhile_append_of_blank {before cs : List Char} (h : ∀ c ∈ before, isBlank c = true) :
    (before ++ cs).dropWhile isBlank = cs.dropWhile isBlank := by
  induction before with
  | nil => rfl
  | cons c before ih =>
    obtain ⟨hc, hbefore⟩ := List.forall_mem_cons.1 h
    rw [List.cons_append, List.dropWhile_cons_of_pos hc, ih hbefore]

theorem dropWhile_append_of_not_blank {cs : List Char} (after : List Char)
    (h : ∀ c ∈ cs, isBlank c = false) (hne : cs ≠ []) :
    (cs ++ after).dropWhile isBlank = cs ++ after := by
  cases cs with
  | nil => exact absurd rfl hne
  | cons c cs =>
    have hc := Bool.eq_false_iff.1 (h c List.mem_cons_self)
    rw [List.cons_append, List.dropWhile_cons_of_neg hc]

/-- Blanks around a text without blanks are trimmed away, and nothing else. -/
theorem trim_append {before cs after : List Char} (hbefore : ∀ c ∈ before, isBlank c = true)
    (hcs : ∀ c ∈ cs, isBlank c = false) (hne : cs ≠ []) (hafter : ∀ c ∈ after, isBlank c = true) :
    trim (before ++ cs ++ after) = cs := by
  have hreverse : ∀ c ∈ cs.reverse, isBlank c = false := fun c hc => hcs c (List.mem_reverse.1 hc)
  have hafter' : ∀ c ∈ after.reverse, isBlank c = true := fun c hc =>
    hafter c (List.mem_reverse.1 hc)
  have hend := dropWhile_append_of_not_blank [] hreverse (by simpa using hne)
  rw [List.append_nil] at hend
  rw [trim, List.append_assoc, dropWhile_append_of_blank hbefore,
    dropWhile_append_of_not_blank _ hcs hne, trimEnd, List.reverse_append,
    dropWhile_append_of_blank hafter', hend, List.reverse_reverse]

end Blank

namespace Header

/-! ## Bytes -/

/-- A 32-bit field is read back from its four bytes. -/
theorem ofNat_ofLittleEndian (n : UInt32) :
    UInt32.ofNat (ofLittleEndian (littleEndian 4 n.toNat)) = n := by
  have hlt : n.toNat < 256 ^ 4 := n.toNat_lt
  rw [ofLittleEndian_littleEndian, Nat.mod_eq_of_lt hlt, UInt32.ofNat_toNat]

/-- Four bytes are written back from the 32-bit field that they denote. -/
theorem littleEndian_ofNat {bytes : List UInt8} (h : bytes.length = 4) :
    littleEndian 4 (UInt32.ofNat (ofLittleEndian bytes)).toNat = bytes := by
  have hlt : ofLittleEndian bytes < 2 ^ 32 := by
    have hbound := ofLittleEndian_lt bytes
    rwa [h] at hbound
  rw [UInt32.toNat_ofNat', Nat.mod_eq_of_lt hlt, ← h, littleEndian_ofLittleEndian]

/-- A header is the one of its eighty bytes. -/
theorem ofBytes_bytes (h : Header) : ofBytes h.bytes = h := by
  -- Each field is cut out where it was put: what stands before it is dropped as a whole.
  simp (disch := simp) [ofBytes, word, Bytes.slice, bytes, List.drop_append,
    List.drop_of_length_le, List.take_of_length_le, ofNat_ofLittleEndian]

/-- What is cut out at a position stands before what follows it. -/
theorem slice_append_drop (b : Bytes 80) (start length : Nat) (h : start + length ≤ 80) :
    (b.slice start length h).toList ++ b.toList.drop (start + length) = b.toList.drop start := by
  rw [← List.drop_drop]
  exact List.take_append_drop length (b.toList.drop start)

/-- Eighty bytes are those of their header. -/
theorem bytes_ofBytes (b : Bytes 80) : (ofBytes b).bytes = b := by
  have hend : b.toList.drop 80 = [] := List.drop_of_length_le (Nat.le_of_eq b.length_toList)
  apply Bytes.ext
  calc (ofBytes b).bytes.toList
      = (b.slice 0 4).toList ++ (b.slice 4 32).toList ++ (b.slice 36 32).toList ++
          (b.slice 68 4).toList ++ (b.slice 72 4).toList ++ (b.slice 76 4).toList := by
        simp only [bytes, ofBytes, word, UInt32.toUInt32_toInt32,
          littleEndian_ofNat (Bytes.length_toList _)]
    _ = b.toList.drop 0 := by
        simp only [List.append_assoc]
        rw [← slice_append_drop b 0 4 (by decide), ← slice_append_drop b 4 32 (by decide),
          ← slice_append_drop b 36 32 (by decide), ← slice_append_drop b 68 4 (by decide),
          ← slice_append_drop b 72 4 (by decide), ← slice_append_drop b 76 4 (by decide), hend,
          List.append_nil]
    _ = b.toList := List.drop_zero

/-- Every eighty bytes are those of exactly one header. -/
theorem existsUnique_bytes_eq (b : Bytes 80) : ∃! h : Header, h.bytes = b := by
  refine ⟨ofBytes b, bytes_ofBytes b, ?_⟩
  rintro h rfl
  exact h.ofBytes_bytes.symm

/-! ## Text -/

theorem hex_toList (h : Header) : h.hex.toList = Hex.encodeChars h.bytes.toList := by
  rw [hex, Hex.encode, String.toList_ofList]

theorem length_hex (h : Header) : h.hex.length = 160 := by
  rw [← String.length_toList, hex_toList, Hex.length_encodeChars, Bytes.length_toList]

theorem isLowercaseDigit_of_mem_hex {h : Header} {c : Char} (hc : c ∈ h.hex.toList) :
    Hex.IsLowercaseDigit c := by
  rw [hex_toList] at hc
  exact Hex.isLowercaseDigit_of_mem_encodeChars hc

/-- A text denotes a header exactly if it is the form of its bytes after trimming. -/
theorem ofHex_eq_ok_iff {text : String} {h : Header} :
    ofHex text = .ok h ↔ Hex.decodeChars 80 (Blank.trim text.toList) = .ok h.bytes := by
  rw [ofHex]
  cases Hex.decodeChars 80 (Blank.trim text.toList) with
  | error e => exact iff_of_false nofun nofun
  | ok b =>
    show Except.ok (ofBytes b) = _ ↔ _
    rw [Except.ok.injEq, Except.ok.injEq]
    constructor
    · rintro rfl
      exact (bytes_ofBytes b).symm
    · rintro rfl
      exact h.ofBytes_bytes

/-- A header is read back from its hexadecimal form between blanks. -/
theorem ofHex_append (h : Header) {before after : String}
    (hbefore : ∀ c ∈ before.toList, Blank.isBlank c = true)
    (hafter : ∀ c ∈ after.toList, Blank.isBlank c = true) :
    ofHex (before ++ h.hex ++ after) = .ok h := by
  have hdigits : ∀ c ∈ h.hex.toList, Blank.isBlank c = false := fun c hc =>
    Blank.isBlank_of_isDigit (isLowercaseDigit_of_mem_hex hc).isDigit
  have hne : h.hex.toList ≠ [] := by
    rw [← List.length_pos_iff_ne_nil, String.length_toList, length_hex]
    decide
  rw [ofHex_eq_ok_iff, String.toList_append, String.toList_append,
    Blank.trim_append hbefore hdigits hne hafter, hex_toList, Hex.decodeChars_encodeChars]

/-- A header is read back from its hexadecimal form. -/
theorem ofHex_hex (h : Header) : ofHex h.hex = .ok h := by
  have hblank : ∀ c ∈ "".toList, Blank.isBlank c = true := nofun
  simpa only [String.empty_append, String.append_empty] using h.ofHex_append hblank hblank

/-- A list of headers is read back from the list of their hexadecimal forms. -/
theorem mapM_ofHex_hex (headers : List Header) :
    (headers.map hex).mapM ofHex = .ok headers := by
  induction headers with
  | nil => rfl
  | cons h headers ih =>
    rw [List.map_cons, List.mapM_cons, ofHex_hex, ih]
    rfl

/-- The form of a header is one hundred and sixty lowercase digits, and the header is read back from
it with any blanks around it. A text denotes a header exactly if one hundred and sixty digits of
either case are left of it after trimming, and then the form of the header is these digits in
lowercase. Hence two headers never have the same eighty bytes, and every eighty bytes are those of
one header. -/
theorem header_text_denotes_one_header :
    (∀ h : Header, h.hex.length = 160 ∧ ∀ c ∈ h.hex.toList, Hex.IsLowercaseDigit c) ∧
    (∀ (h : Header) (before after : String), (∀ c ∈ before.toList, Blank.isBlank c = true) →
      (∀ c ∈ after.toList, Blank.isBlank c = true) → ofHex (before ++ h.hex ++ after) = .ok h) ∧
    (∀ text : String, (∃ h, ofHex text = .ok h) ↔
      (Blank.trim text.toList).length = 160 ∧ ∀ c ∈ Blank.trim text.toList, Hex.IsDigit c) ∧
    (∀ (text : String) (h : Header), ofHex text = .ok h →
      h.hex = String.ofList ((Blank.trim text.toList).map Char.toLower)) ∧
    Function.Injective bytes ∧ ∀ b : Bytes 80, ∃! h : Header, h.bytes = b := by
  refine ⟨fun h => ⟨h.length_hex, fun c => isLowercaseDigit_of_mem_hex⟩,
    fun h before after => h.ofHex_append, fun text => ?_, fun text h hread => ?_, ?_,
    existsUnique_bytes_eq⟩
  · rw [← Hex.exists_decodeChars_iff (n := 80)]
    constructor
    · rintro ⟨h, hread⟩
      exact ⟨h.bytes, ofHex_eq_ok_iff.1 hread⟩
    · rintro ⟨b, hread⟩
      refine ⟨ofBytes b, ofHex_eq_ok_iff.2 ?_⟩
      rw [hread, bytes_ofBytes]
  · rw [hex, Hex.encode, Hex.encodeChars_of_decodeChars (ofHex_eq_ok_iff.1 hread)]
  · intro h h' hbytes
    rw [← h.ofBytes_bytes, hbytes, h'.ofBytes_bytes]

/-- A header whose version is negative. -/
def negativeVersion : Header := { (default : Header) with version := -2, nonce := 0xffffffff }

/-- A header with a negative version is read back between a no-break space and an ideographic one,
and its form is what is left of that text. -/
theorem negativeVersion_read_between_blanks :
    (∀ c ∈ "\u00a0\t".toList, Blank.isBlank c = true) ∧
      (∀ c ∈ "\n\u3000".toList, Blank.isBlank c = true) ∧
      ofHex ("\u00a0\t" ++ negativeVersion.hex ++ "\n\u3000") = .ok negativeVersion ∧
      negativeVersion.hex = String.ofList
        ((Blank.trim ("\u00a0\t" ++ negativeVersion.hex ++ "\n\u3000").toList).map Char.toLower) := by
  obtain ⟨-, hread, -, hlower, -⟩ := header_text_denotes_one_header
  have hbefore : ∀ c ∈ "\u00a0\t".toList, Blank.isBlank c = true := List.all_eq_true.1 rfl
  have hafter : ∀ c ∈ "\n\u3000".toList, Blank.isBlank c = true := List.all_eq_true.1 rfl
  have hok := hread negativeVersion _ _ hbefore hafter
  exact ⟨hbefore, hafter, hok, hlower _ _ hok⟩

end Header

end HeaderRules
