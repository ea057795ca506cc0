import HeaderRules.Form.Block
import HeaderRules.Form.Pipeline
import HeaderRules.Proofs.ByteOrder

/-!
# Forms that are read back

Every value is read back from its JSON form, and then reading a form, writing what was read and
reading that changes nothing, however the form was spelled (`Json.RoundTrip`). Records are read by
the names of their fields, whatever they hold, so a record is read back as soon as its fields are
(`Json.fields?_zip`).

Targets are read by two readers. The one for texts accepts digits and nothing else. The one for
forms stores the digits in pairs and passes over blanks, and it does not accept a text without any
character (`Target.ofJson?_str_eq_some_iff`).
-/

namespace HeaderRules

open Hex (IsDigit Spells ofValues)

/-! ## Numbers and records -/

namespace Json

variable {α : Type}

/-- A value is read back from its form, and the form of what was read is read as the same value. -/
structure RoundTrip (write : α → Json) (read : Json → Option α) : Prop where
  read_write : ∀ x, read (write x) = some x
  normal : ∀ j, ((read j).bind fun x => read (write x)) = read j

theorem RoundTrip.of_read_write {write : α → Json} {read : Json → Option α}
    (h : ∀ x, read (write x) = some x) : RoundTrip write read where
  read_write := h
  normal j := by
    simp only [h]
    exact Option.bind_fun_some _

/-- A number within the bounds of a word is read as it is. -/
theorem intIn?_natCast {n size : Nat} (h : n < size) : (int n).intIn? 0 size = some (n : Int) :=
  if_pos ⟨Int.natCast_nonneg n, Int.ofNat_lt.2 h⟩

theorem uint8?_int (n : UInt8) : (int n.toNat).uint8? = some n := by
  rw [uint8?, intIn?_natCast n.toNat_lt, Option.map_some, Int.toNat_natCast, UInt8.ofNat_toNat]

theorem uint32?_ofUInt32 (n : UInt32) : (ofUInt32 n).uint32? = some n := by
  rw [uint32?, ofUInt32, intIn?_natCast n.toNat_lt, Option.map_some, Int.toNat_natCast,
    UInt32.ofNat_toNat]

theorem uint64?_ofUInt64 (n : UInt64) : (ofUInt64 n).uint64? = some n := by
  rw [uint64?, ofUInt64, intIn?_natCast n.toNat_lt, Option.map_some, Int.toNat_natCast,
    UInt64.ofNat_toNat]

theorem int32?_int (n : Int32) : (int n.toInt).int32? = some n := by
  have hin : (int n.toInt).intIn? (-0x80000000) 0x80000000 = some n.toInt :=
    if_pos ⟨n.le_toInt, n.toInt_lt⟩
  rw [int32?, hin, Option.map_some, Int32.ofInt_toInt]

/-- What is read from every item is read from all of them. -/
theorem mapM_eq_some_of_forall₂ {β : Type} {f : α → Option β} {as : List α} {bs : List β}
    (h : List.Forall₂ (fun a b => f a = some b) as bs) : as.mapM f = some bs := by
  induction h with
  | nil => rfl
  | cons ha _ ih =>
    rw [List.mapM_cons, ha, ih]
    rfl

/-- Members behind others are found if the others have different names. -/
theorem forall₂_lookup_zip (earlier : List (String × Json)) {names : List String}
    {items : List Json} (hnodup : names.Nodup) (hlength : names.length = items.length)
    (hearlier : ∀ name ∈ names, earlier.lookup name = none) :
    List.Forall₂ (fun name item => (earlier ++ names.zip items).lookup name = some item) names
      items := by
  induction names generalizing earlier items with
  | nil =>
    obtain rfl := List.length_eq_zero_iff.1 hlength.symm
    exact .nil
  | cons name names ih =>
    cases items with
    | nil => cases hlength
    | cons item items =>
      obtain ⟨hname, hnames⟩ := List.forall_mem_cons.1 hearlier
      obtain ⟨hnew, hnodup⟩ := List.nodup_cons.1 hnodup
      have hnext : ∀ later ∈ names, (earlier ++ [(name, item)]).lookup later = none := by
        intro later hlater
        have hne : (later == name) = false := beq_false_of_ne fun h => hnew (h ▸ hlater)
        rw [List.lookup_append, hnames later hlater, List.lookup_cons, hne]
        rfl
      have hrest := ih _ hnodup (Nat.succ.inj hlength) hnext
      rw [List.append_assoc] at hrest
      refine .cons ?_ hrest
      rw [List.zip_cons_cons, List.lookup_append, hname, List.lookup_cons_self]
      rfl

/-- The fields of a record are found under their names. -/
theorem fields?_zip (names : List String) (items : List Json) (hnodup : names.Nodup)
    (hlength : names.length = items.length) :
    (obj (names.zip items)).fields? names = some items :=
  mapM_eq_some_of_forall₂ (forall₂_lookup_zip [] hnodup hlength fun _ _ => rfl)

end Json

open Json (RoundTrip)

/-! ## Chains, stages and pipelines -/

theorem Chain.roundTrip : RoundTrip Chain.toJson Chain.ofJson? :=
  .of_read_write fun c => by cases c <;> rfl

theorem Hash.X11.Stage.roundTrip : RoundTrip Hash.X11.Stage.toJson Hash.X11.Stage.ofJson? :=
  .of_read_write fun stage => by cases stage <;> rfl

theorem ScryptParams.ofJson?_toJson (params : ScryptParams) :
    ofJson? params.toJson = some params := by
  have hfields := Json.fields?_zip ["log_n", "r", "p", "output_len"] [.int params.logN.toNat,
    .ofUInt32 params.r, .ofUInt32 params.p, .ofUInt64 params.outputLen] (by decide) rfl
  rw [ofJson?, toJson]
  refine Option.bind_eq_some_iff.2 ⟨_, hfields, ?_⟩
  simp only [Json.uint8?_int, Json.uint32?_ofUInt32, Json.uint64?_ofUInt64]
  rfl

theorem HashPipeline.ofJson?_obj (kind : String) (params : Json) :
    ofJson? (.obj [("kind", .str kind), ("params", params)]) = ofKind? kind (some params) := rfl

theorem HashPipeline.roundTrip : RoundTrip toJson ofJson? := .of_read_write fun pipeline => by
  cases pipeline with
  | sha256d => rfl
  | x11 => rfl
  | scrypt params =>
    rw [toJson, ofJson?_obj, name, ofKind?, params.ofJson?_toJson, Option.map_some]

/-! ## Codes, digests and blocks -/

theorem CompactTarget.roundTrip : RoundTrip toJson ofJson? := .of_read_write fun c => by
  rw [ofJson?, toJson, Json.uint32?_ofUInt32, Option.map_some]

theorem PowHash.roundTrip : RoundTrip toJson ofJson? := .of_read_write fun h => by
  have hbytes : (h.bigEndian.toList.map fun b => Json.int b.toNat).mapM Json.uint8? =
      some h.bigEndian.toList := by
    refine Json.mapM_eq_some_of_forall₂ (List.forall₂_map_left_iff.2 ?_)
    exact List.forall₂_same.2 fun b _ => Json.uint8?_int b
  have hlength : Bytes.ofList? 32 h.bigEndian.toList = some h.bigEndian :=
    dif_pos h.bigEndian.length_toList
  simp only [ofJson?, toJson, Json.arr?, hbytes, hlength, Option.bind_eq_bind, Option.bind_some]
  rfl

theorem Hash256.ofJson?_toJson (h : Hash256) : ofJson? h.toJson = some h := by
  rw [toJson, ofJson?, ofDisplayHex_text]
  rfl

theorem Header.ofJson?_toJson (h : Header) : ofJson? h.toJson = some h := by
  have hfields := Json.fields?_zip fieldNames [.int h.version.toInt, h.prevBlockHash.toJson,
    h.merkleRoot.toJson, .ofUInt32 h.time, h.bits.toJson, .ofUInt32 h.nonce] (by decide) rfl
  rw [ofJson?, toJson]
  refine Option.bind_eq_some_iff.2 ⟨_, hfields, ?_⟩
  simp only [Json.int32?_int, Hash256.ofJson?_toJson, Json.uint32?_ofUInt32,
    CompactTarget.roundTrip.read_write]
  rfl

theorem StoredBlock.roundTrip : RoundTrip toJson ofJson? := .of_read_write fun b => by
  have hfields := Json.fields?_zip ["hash", "header", "height"] [b.hash.toJson, b.header.toJson,
    .ofUInt32 b.height] (by decide) rfl
  rw [ofJson?, toJson]
  refine Option.bind_eq_some_iff.2 ⟨_, hfields, ?_⟩
  simp only [Hash256.ofJson?_toJson, Header.ofJson?_toJson, Json.uint32?_ofUInt32]
  rfl

/-! ## Targets -/

namespace Target

variable {text : String} {chars : List Char} {vs : List Nat} {t : Target}

theorem isPlain_of_isDigit {c : Char} (h : IsDigit c) : Blank.isPlain c = false := by
  refine Hex.of_ascii (P := fun c => IsDigit c → Blank.isPlain c = false) ?_ h.toNat_lt h
  decide +kernel

/-- Among the characters that are no blanks there is an `x` if there is one at all. -/
theorem not_mem_of_spells_filter (h : Spells (chars.filter (!Blank.isPlain ·)) vs) : 'x' ∉ chars :=
  fun hx => not_mem_of_spells h (List.mem_filter.2 ⟨hx, rfl⟩)

/-- The number that digits are stored as. They are stored in pairs, and blanks count for the pairs,
so that beside an odd number of blanks the last digit has no partner and is lost. -/
def storedValue (blanks : Nat) (vs : List Nat) : Nat :=
  if blanks % 2 = 0 then ofValues vs else ofValues vs / 16

theorem storedValue_lt (blanks : Nat) (hvs : Spells (chars.filter (!Blank.isPlain ·)) vs)
    (hlength : chars.length ≤ 64) : storedValue blanks vs < 2 ^ 256 := by
  have hle : storedValue blanks vs ≤ ofValues vs := by
    rw [storedValue]
    split_ifs
    · exact le_rfl
    · exact Nat.div_le_self _ 16
  refine hle.trans_lt (ofValues_lt hvs.lt ?_)
  rw [← hvs.length_eq]
  exact (List.length_filter_le _ _).trans hlength

/-- The reader of forms accepts from one to sixty-four digits and blanks after an optional `0x`, and
gives the target that the digits are stored as. -/
theorem ofJson?_str_eq_some_iff : ofJson? (.str text) = some t ↔ ∃ chars,
    AfterRadix text.toList chars ∧ chars ≠ [] ∧ chars.length ≤ 64 ∧
      ∃ vs, Spells (chars.filter (!Blank.isPlain ·)) vs ∧
        t.toNat = storedValue (chars.countP Blank.isPlain) vs := by
  rw [exists_afterRadix_iff fun chars h => not_mem_of_spells_filter h.2.2.choose_spec.1, ofJson?]
  generalize dropRadix text.toList = chars
  simp only [Bool.or_eq_true, List.isEmpty_iff, decide_eq_true_eq]
  by_cases hrange : chars = [] ∨ chars.length > 64
  · rw [if_pos hrange]
    refine iff_of_false nofun fun h => ?_
    rcases hrange with hempty | hlong
    · exact h.1 hempty
    · exact Nat.not_lt_of_le h.2.1 hlong
  · obtain ⟨hne, hlength⟩ := not_or.1 hrange
    have hlength : chars.length ≤ 64 := Nat.le_of_not_lt hlength
    rw [if_neg hrange, Hex.map_number?_eq_some_iff, and_iff_right hne, and_iff_right hlength]
    exact exists_congr fun vs => and_congr_right fun hvs =>
      ofNat_eq_iff (storedValue_lt _ hvs hlength)

/-- Where the blanks are odd in number the last digit is lost. -/
example : ofJson? (.str "0x12 34") = some ⟨0x123⟩ := rfl

theorem exists_spells_filter_iff : (∃ vs, Spells (chars.filter (!Blank.isPlain ·)) vs) ↔
    ∀ c ∈ chars, IsDigit c ∨ Blank.isPlain c = true := by
  rw [Hex.exists_spells_iff]
  refine forall_congr' fun c => ?_
  rw [List.mem_filter, and_imp, Bool.not_eq_true', ← Bool.not_eq_true, or_comm,
    or_iff_not_imp_left]

/-- A form is accepted exactly if it is a string of from one to sixty-four digits and blanks after
an optional `0x`. -/
theorem exists_ofJson?_iff {j : Json} : (∃ t, ofJson? j = some t) ↔ ∃ text chars, j = .str text ∧
    AfterRadix text.toList chars ∧ chars ≠ [] ∧ chars.length ≤ 64 ∧
      ∀ c ∈ chars, IsDigit c ∨ Blank.isPlain c = true := by
  constructor
  · rintro ⟨t, hread⟩
    cases j with
    | str text =>
      obtain ⟨chars, hafter, hne, hlength, vs, hvs, -⟩ := ofJson?_str_eq_some_iff.1 hread
      exact ⟨text, chars, rfl, hafter, hne, hlength, exists_spells_filter_iff.1 ⟨vs, hvs⟩⟩
    | _ => cases hread
  · rintro ⟨text, chars, rfl, hafter, hne, hlength, hchars⟩
    obtain ⟨vs, hvs⟩ := exists_spells_filter_iff.2 hchars
    exact ⟨_, ofJson?_str_eq_some_iff.2
      ⟨chars, hafter, hne, hlength, vs, hvs, toNat_ofNat (storedValue_lt _ hvs hlength)⟩⟩

/-- Where there are digits the two readers agree. -/
theorem ofJson?_str_of_ofHex? (hread : ofHex? text = some t) (hne : dropRadix text.toList ≠ []) :
    ofJson? (.str text) = some t := by
  obtain ⟨digits, hafter, hlength, vs, hvs, ht⟩ := ofHex?_eq_some_iff.1 hread
  have hplain : ∀ c ∈ digits, Blank.isPlain c = false := fun c hc =>
    isPlain_of_isDigit (Hex.exists_spells_iff.1 ⟨vs, hvs⟩ c hc)
  have hcount : digits.countP Blank.isPlain = 0 := by
    rw [List.countP_eq_zero]
    exact fun c hc => Bool.eq_false_iff.1 (hplain c hc)
  have hfilter : digits.filter (!Blank.isPlain ·) = digits := by
    rw [List.filter_eq_self]
    exact fun c hc => by rw [hplain c hc, Bool.not_false]
  rw [(dropRadix_eq_iff (not_mem_of_spells hvs)).2 hafter] at hne
  refine ofJson?_str_eq_some_iff.2 ⟨digits, hafter, hne, hlength, vs, hfilter.symm ▸ hvs, ?_⟩
  rw [hcount, ht]
  rfl

theorem AfterRadix.countP_isPlain {cs : List Char} (h : AfterRadix cs chars) :
    cs.countP Blank.isPlain = chars.countP Blank.isPlain := by
  obtain rfl | rfl := h
  · rfl
  · rfl

/-- An even number of blanks does not matter for the value. -/
theorem ofJson?_str_eq_some_iff_of_even (heven : text.toList.countP Blank.isPlain % 2 = 0) :
    ofJson? (.str text) = some t ↔ ∃ chars, AfterRadix text.toList chars ∧ chars ≠ [] ∧
      chars.length ≤ 64 ∧ ∃ vs, Spells (chars.filter (!Blank.isPlain ·)) vs ∧
        t.toNat = ofValues vs := by
  rw [ofJson?_str_eq_some_iff]
  refine exists_congr fun chars => and_congr_right fun hafter => ?_
  rw [hafter.countP_isPlain] at heven
  simp only [storedValue, if_pos heven]

theorem ofJson?_text (t : Target) : ofJson? (.str t.text) = some t := by
  obtain ⟨vs, htext, hlength, hlt, -⟩ := t.exists_text_eq
  have hdrop : dropRadix t.text.toList = t.text.toList :=
    (dropRadix_eq_iff (not_mem_of_spells (htext ▸ Hex.spells_map_digit hlt))).2 (.inl rfl)
  refine ofJson?_str_of_ofHex? t.ofHex?_text fun hempty => ?_
  rw [hdrop, htext, List.map_eq_nil_iff] at hempty
  rw [hempty] at hlength
  cases hlength

theorem roundTrip : RoundTrip toJson ofJson? := .of_read_write fun t => by
  refine ofJson?_str_of_ofHex? t.ofHex?_minimal fun hempty => ?_
  rw [String.toList_ofList] at hempty
  exact absurd (congrArg List.length hempty) (Nat.ne_of_gt Nat.length_toDigits_pos)

end Target

/-- Every chain, pipeline, stage, target, code, digest and stored block is read back from its form,
and the form of what was read from any other spelling is read as the same value.

A text is read as a target exactly if it consists of at most sixty-four digits of either case after
an optional `0x`, and the target is the number that they denote. A form of a target may have blanks
among its digits, but it has at least one character after `0x`; if the number of blanks is even, the
target is again the number that the digits denote. Either reader reads back both written forms of
every target. -/
theorem forms_read_back :
    (RoundTrip Chain.toJson Chain.ofJson? ∧
      RoundTrip HashPipeline.toJson HashPipeline.ofJson? ∧
      RoundTrip Hash.X11.Stage.toJson Hash.X11.Stage.ofJson? ∧
      RoundTrip Target.toJson Target.ofJson? ∧
      RoundTrip CompactTarget.toJson CompactTarget.ofJson? ∧
      RoundTrip PowHash.toJson PowHash.ofJson? ∧
      RoundTrip StoredBlock.toJson StoredBlock.ofJson?) ∧
    (∀ text t, Target.ofHex? text = some t ↔ ∃ digits, Target.AfterRadix text.toList digits ∧
      digits.length ≤ 64 ∧ ∃ values, Spells digits values ∧ t.toNat = ofValues values) ∧
    (∀ form, (∃ t, Target.ofJson? form = some t) ↔ ∃ text chars, form = .str text ∧
      Target.AfterRadix text.toList chars ∧ chars ≠ [] ∧ chars.length ≤ 64 ∧
        ∀ c ∈ chars, IsDigit c ∨ Blank.isPlain c = true) ∧
    (∀ text : String, text.toList.countP Blank.isPlain % 2 = 0 → ∀ t,
      Target.ofJson? (.str text) = some t ↔ ∃ chars, Target.AfterRadix text.toList chars ∧
        chars ≠ [] ∧ chars.length ≤ 64 ∧ ∃ values,
          Spells (chars.filter (!Blank.isPlain ·)) values ∧ t.toNat = ofValues values) ∧
    ∀ t : Target, t.toJson = .str (String.ofList ('0' :: 'x' :: Hex.minimal t.toNat)) ∧
      ∀ text ∈ [String.ofList ('0' :: 'x' :: Hex.minimal t.toNat), t.text],
        Target.ofHex? text = some t ∧ Target.ofJson? (.str text) = some t := by
  refine ⟨⟨Chain.roundTrip, HashPipeline.roundTrip, Hash.X11.Stage.roundTrip, Target.roundTrip,
    CompactTarget.roundTrip, PowHash.roundTrip, StoredBlock.roundTrip⟩,
    fun text t => Target.ofHex?_eq_some_iff, fun form => Target.exists_ofJson?_iff,
    fun text heven t => Target.ofJson?_str_eq_some_iff_of_even heven, fun t => ?_⟩
  rw [List.forall_mem_cons, List.forall_mem_singleton]
  exact ⟨rfl, ⟨t.ofHex?_minimal, Target.roundTrip.read_write t⟩, t.ofHex?_text, t.ofJson?_text⟩

/-- Two blanks among six digits do not change the target. -/
theorem form_with_blanks_read : "0xab cd ef".toList.countP Blank.isPlain % 2 = 0 ∧
    Target.ofJson? (.str "0xab cd ef") = some ⟨0xabcdef⟩ := by
  have heven : "0xab cd ef".toList.countP Blank.isPlain % 2 = 0 := by decide
  obtain ⟨-, -, -, hread, -⟩ := forms_read_back
  refine ⟨heven, (hread "0xab cd ef" heven ⟨0xabcdef⟩).2
    ⟨"ab cd ef".toList, .inr rfl, by decide, by decide, [10, 11, 12, 13, 14, 15], ?_, rfl⟩⟩
  exact .cons rfl (.cons rfl (.cons rfl (.cons rfl (.cons rfl (.cons rfl .nil)))))

/-- Digits after an optional `0x` are not what the forms of targets are: blanks are accepted among
them, and no digits at all are refused. -/
theorem form_with_blanks_accepted :
    ¬((∃ t, Target.ofJson? (.str "0xab cd ef") = some t) ↔
      ∃ digits, Target.AfterRadix "0xab cd ef".toList digits ∧ digits.length ≤ 64 ∧
        ∀ c ∈ digits, IsDigit c) ∧
    ¬((∃ t, Target.ofJson? (.str "0x") = some t) ↔
      ∃ digits, Target.AfterRadix "0x".toList digits ∧ digits.length ≤ 64 ∧
        ∀ c ∈ digits, IsDigit c) := by
  constructor
  · intro h
    obtain ⟨digits, hafter, -, hdigits⟩ := h.1 ⟨⟨0xabcdef⟩, rfl⟩
    have hx : 'x' ∉ digits := fun hx => absurd (hdigits 'x' hx) (by decide)
    obtain rfl := (Target.dropRadix_eq_iff hx).2 hafter
    exact absurd (hdigits ' ' (by decide)) (by decide)
  · intro h
    obtain ⟨t, ht⟩ := h.2 ⟨[], .inr rfl, by decide, nofun⟩
    cases ht

end HeaderRules
