import HeaderRules.Proofs.LittleEndian
import HeaderRules.Transaction
import Mathlib.Algebra.Order.Ring.Nat

/-!
# Serialized forms

A transaction is written as one list of bytes without marks between its fields. It can be taken
apart again because every field is a *prefix code*: no written form is the beginning of another one,
so the field and what follows it are both known from the whole (`IsPrefixCode`). Fields of a fixed
width are such, and so is a list after its length if the length and the elements are
(`IsPrefixCode.counted`). The two writings of a length, in front of lists and of pushed data, have
four forms each that the first byte tells apart, so that a length is read back by one function
(`readSize`). From these follows that two transactions with the same serialized form are the same
(`Transaction.isPrefixCode_bytes`).
-/

namespace HeaderRules

variable {α : Type}

/-! ## Prefix codes -/

/-- What is written of the values in question, and what follows it, are both known from the whole.
-/
def IsPrefixCode (write : α → List UInt8) (P : α → Prop) : Prop :=
  ∀ ⦃a b : α⦄, P a → P b → ∀ ⦃rest rest' : List UInt8⦄,
    write a ++ rest = write b ++ rest' → a = b ∧ rest = rest'

variable {write : α → List UInt8} {P : α → Prop} {size : Nat → List UInt8} {limit n : Nat}

theorem IsPrefixCode.eq (h : IsPrefixCode write P) {a b : α} (ha : P a) (hb : P b)
    (heq : write a = write b) : a = b :=
  (h ha hb (congrArg (· ++ []) heq)).1

/-- A field in two parts, with everything after the first part taken together. -/
theorem IsPrefixCode.of_parts {head tail : α → List UInt8}
    (h : IsPrefixCode (fun a => head a ++ tail a) P) {a b : α} (ha : P a) (hb : P b)
    {rest rest' : List UInt8} (heq : head a ++ (tail a ++ rest) = head b ++ (tail b ++ rest')) :
    a = b ∧ rest = rest' := by
  rw [← List.append_assoc, ← List.append_assoc] at heq
  exact h ha hb heq

/-- What is read back whatever follows it is a prefix code. -/
theorem isPrefixCode_of_read (read : List UInt8 → α × List UInt8)
    (h : ∀ a, P a → ∀ rest, read (write a ++ rest) = (a, rest)) : IsPrefixCode write P := by
  intro a b ha hb rest rest' heq
  have hread := h a ha rest
  rw [heq, h b hb rest'] at hread
  exact ⟨(Prod.mk.inj hread).1.symm, (Prod.mk.inj hread).2.symm⟩

/-- Forms of one length only have to be different. -/
theorem isPrefixCode_of_length (hlength : ∀ a, P a → (write a).length = n)
    (hinj : ∀ ⦃a b⦄, P a → P b → write a = write b → a = b) : IsPrefixCode write P := by
  intro a b ha hb rest rest' heq
  obtain ⟨hwrite, hrest⟩ := List.append_inj heq ((hlength a ha).trans (hlength b hb).symm)
  exact ⟨hinj ha hb hwrite, hrest⟩

/-- As many elements as there are known to be are taken apart one by one. -/
theorem IsPrefixCode.flatMap (h : IsPrefixCode write P) : ∀ {as bs : List α},
    as.length = bs.length → (∀ a ∈ as, P a) → (∀ b ∈ bs, P b) →
    ∀ {rest rest' : List UInt8}, as.flatMap write ++ rest = bs.flatMap write ++ rest' →
      as = bs ∧ rest = rest'
  | [], [], _, _, _, _, _, heq => ⟨rfl, heq⟩
  | a :: as, b :: bs, hlength, has, hbs, rest, rest', heq => by
    obtain ⟨ha, hastail⟩ := List.forall_mem_cons.1 has
    obtain ⟨hb, hbstail⟩ := List.forall_mem_cons.1 hbs
    rw [List.flatMap_cons, List.flatMap_cons, List.append_assoc, List.append_assoc] at heq
    obtain ⟨rfl, htail⟩ := h ha hb heq
    obtain ⟨rfl, hrest⟩ := h.flatMap (Nat.succ_injective hlength) hastail hbstail htail
    exact ⟨rfl, hrest⟩

/-- A list after its length. -/
theorem IsPrefixCode.counted (hsize : IsPrefixCode size (· < limit)) (h : IsPrefixCode write P) :
    IsPrefixCode (fun as : List α => size as.length ++ as.flatMap write)
      (fun as => as.length < limit ∧ ∀ a ∈ as, P a) := by
  rintro as bs ⟨has_lt, has⟩ ⟨hbs_lt, hbs⟩ rest rest' heq
  rw [List.append_assoc, List.append_assoc] at heq
  obtain ⟨hlength, heq⟩ := hsize has_lt hbs_lt heq
  exact h.flatMap hlength has hbs heq

/-- Bytes after their number. -/
theorem IsPrefixCode.sized (hsize : IsPrefixCode size (· < limit)) :
    IsPrefixCode (fun data : List UInt8 => size data.length ++ data) (·.length < limit) := by
  have hbyte : IsPrefixCode (fun b : UInt8 => [b]) (fun _ => True) :=
    isPrefixCode_of_length (fun _ _ => rfl) fun _ _ _ _ h => List.singleton_inj.1 h
  intro a b ha hb rest rest' heq
  apply hsize.counted hbyte ⟨ha, fun _ _ => trivial⟩ ⟨hb, fun _ _ => trivial⟩
  simpa only [List.flatMap_singleton'] using heq

/-! ## Numbers of a fixed width -/

theorem isPrefixCode_littleEndian (width : Nat) :
    IsPrefixCode (littleEndian width) (· < 256 ^ width) := by
  apply isPrefixCode_of_length fun n _ => length_littleEndian width n
  intro n m hn hm heq
  have hvalue := congrArg ofLittleEndian heq
  rwa [ofLittleEndian_littleEndian, ofLittleEndian_littleEndian, Nat.mod_eq_of_lt hn,
    Nat.mod_eq_of_lt hm] at hvalue

/-- Words are written in as many bytes as they have. -/
theorem isPrefixCode_word {width : Nat} {toNat : α → Nat} (hinj : Function.Injective toNat)
    (hlt : ∀ a, toNat a < 256 ^ width) :
    IsPrefixCode (fun a => littleEndian width (toNat a)) fun _ => True := by
  intro a b _ _ rest rest' heq
  obtain ⟨hvalue, hrest⟩ := isPrefixCode_littleEndian width (hlt a) (hlt b) heq
  exact ⟨hinj hvalue, hrest⟩

/-! ## Lengths in four forms -/

/-- Reads a length whose first byte is either the length itself or a mark that says how many bytes
the length takes. -/
def readSize (width? : UInt8 → Option Nat) : List UInt8 → Nat × List UInt8
  | [] => (0, [])
  | b :: bytes =>
    match width? b with
    | none => (b.toNat, bytes)
    | some width => (ofLittleEndian (bytes.take width), bytes.drop width)

theorem readSize_byte {width? : UInt8 → Option Nat} (hn : n < 256)
    (hbyte : width? (.ofNat n) = none) (rest : List UInt8) :
    readSize width? (littleEndian 1 n ++ rest) = (n, rest) := by
  have hvalue : (UInt8.ofNat n).toNat = n := UInt8.toNat_ofNat_of_lt hn
  rw [littleEndian, littleEndian, List.singleton_append, readSize, hbyte, hvalue]

theorem readSize_mark {width? : UInt8 → Option Nat} {mark : UInt8} {width : Nat}
    (hn : n < 256 ^ width) (hmark : width? mark = some width) (rest : List UInt8) :
    readSize width? (mark :: littleEndian width n ++ rest) = (n, rest) := by
  have hlength := length_littleEndian width n
  simp only [List.cons_append, readSize, hmark, List.take_left' hlength, List.drop_left' hlength,
    ofLittleEndian_littleEndian, Nat.mod_eq_of_lt hn]

/-- How many bytes of a length follow the first byte of one in front of a list. -/
def sizeWidth? (b : UInt8) : Option Nat :=
  if b = 0xfd then some 2 else if b = 0xfe then some 4 else if b = 0xff then some 8 else none

theorem sizeWidth?_eq_none : ∀ n < 0xfd, sizeWidth? (.ofNat n) = none := by decide +kernel

/-- A length in front of a list is read back from any of its forms. -/
theorem isPrefixCode_compactSize : IsPrefixCode compactSize (· < 2 ^ 64) := by
  refine isPrefixCode_of_read (readSize sizeWidth?) fun n hn rest => ?_
  unfold compactSize
  split_ifs with hbyte htwo hfour
  · exact readSize_byte (by omega) (sizeWidth?_eq_none n hbyte) rest
  · exact readSize_mark htwo rfl rest
  · exact readSize_mark hfour rfl rest
  · exact readSize_mark hn rfl rest

/-- How many bytes of a length follow the first byte of one in front of pushed data. -/
def pushWidth? (b : UInt8) : Option Nat :=
  if b = 0x4c then some 1 else if b = 0x4d then some 2 else if b = 0x4e then some 4 else none

theorem pushWidth?_eq_none : ∀ n < 76, pushWidth? (.ofNat n) = none := by decide +kernel

/-- A length in front of pushed data is read back from any of its forms. -/
theorem Script.isPrefixCode_pushSize : IsPrefixCode Script.pushSize (· < 2 ^ 32) := by
  refine isPrefixCode_of_read (readSize pushWidth?) fun n hn rest => ?_
  unfold Script.pushSize
  split_ifs with hbyte hone htwo
  · exact readSize_byte (by omega) (pushWidth?_eq_none n (by omega)) rest
  · exact readSize_mark hone rfl rest
  · exact readSize_mark htwo rfl rest
  · exact readSize_mark hn rfl rest

/-! ## Scripts and transactions -/

/-- Pushed data is known from the instruction that pushes it. -/
theorem Script.isPrefixCode_push : IsPrefixCode Script.push (·.length < 2 ^ 32) :=
  isPrefixCode_pushSize.sized

/-- A script after its length. -/
theorem isPrefixCode_script :
    IsPrefixCode (fun script : List UInt8 => compactSize script.length ++ script)
      (·.length < 2 ^ 64) :=
  isPrefixCode_compactSize.sized

theorem isPrefixCode_hash : IsPrefixCode (fun h : Hash256 => h.internal.toList) fun _ => True := by
  refine isPrefixCode_of_length (fun h _ => h.internal.length_toList) fun a b _ _ heq => ?_
  exact congrArg Hash256.mk (Bytes.ext heq)

theorem isPrefixCode_uint32 :
    IsPrefixCode (fun n : UInt32 => littleEndian 4 n.toNat) fun _ => True :=
  isPrefixCode_word (fun _ _ => UInt32.toNat_inj.1) UInt32.toNat_lt

theorem isPrefixCode_uint64 :
    IsPrefixCode (fun n : UInt64 => littleEndian 8 n.toNat) fun _ => True :=
  isPrefixCode_word (fun _ _ => UInt64.toNat_inj.1) UInt64.toNat_lt

/-- An input is known from its written form. -/
theorem TxInput.isPrefixCode_bytes :
    IsPrefixCode TxInput.bytes (·.script.length < 2 ^ 64) := by
  rintro ⟨⟨tx, index⟩, script, sequence⟩ ⟨⟨tx', index'⟩, script', sequence'⟩ h h' rest rest' heq
  simp only [bytes, List.append_assoc] at heq
  obtain ⟨rfl, hindex⟩ := isPrefixCode_hash trivial trivial heq
  obtain ⟨rfl, hscript⟩ := isPrefixCode_uint32 trivial trivial hindex
  obtain ⟨rfl, hsequence⟩ := isPrefixCode_script.of_parts h h' hscript
  obtain ⟨rfl, hrest⟩ := isPrefixCode_uint32 trivial trivial hsequence
  exact ⟨rfl, hrest⟩

/-- An output is known from its written form. -/
theorem TxOutput.isPrefixCode_bytes :
    IsPrefixCode TxOutput.bytes (·.script.length < 2 ^ 64) := by
  rintro ⟨amount, script⟩ ⟨amount', script'⟩ h h' rest rest' heq
  simp only [bytes, List.append_assoc] at heq
  obtain ⟨rfl, hscript⟩ := isPrefixCode_uint64 trivial trivial heq
  obtain ⟨rfl, hrest⟩ := isPrefixCode_script.of_parts h h' hscript
  exact ⟨rfl, hrest⟩

namespace Transaction

/-- All lists and scripts of a transaction have a length that can be written. -/
structure Writable (tx : Transaction) : Prop where
  inputs : tx.inputs.length < 2 ^ 64 ∧ ∀ input ∈ tx.inputs, input.script.length < 2 ^ 64
  outputs : tx.outputs.length < 2 ^ 64 ∧ ∀ output ∈ tx.outputs, output.script.length < 2 ^ 64

/-- A transaction is known from its serialized form, and no serialized form is the beginning of
another one. -/
theorem isPrefixCode_bytes : IsPrefixCode Transaction.bytes Writable := by
  rintro ⟨version, inputs, outputs, lockTime⟩ ⟨version', inputs', outputs', lockTime'⟩
    h h' rest rest' heq
  simp only [bytes, List.append_assoc] at heq
  obtain ⟨hversion, hinputs⟩ := isPrefixCode_uint32 trivial trivial heq
  obtain rfl : version = version' := congrArg UInt32.toInt32 hversion
  obtain ⟨rfl, houtputs⟩ := (isPrefixCode_compactSize.counted TxInput.isPrefixCode_bytes).of_parts
    h.inputs h'.inputs hinputs
  obtain ⟨rfl, hlock⟩ := (isPrefixCode_compactSize.counted TxOutput.isPrefixCode_bytes).of_parts
    h.outputs h'.outputs houtputs
  obtain ⟨rfl, hrest⟩ := isPrefixCode_uint32 trivial trivial hlock
  exact ⟨rfl, hrest⟩

end Transaction

end HeaderRules
