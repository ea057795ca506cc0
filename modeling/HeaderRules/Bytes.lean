/-!
# Byte strings of a fixed length

Digests have thirty-two bytes and serialized headers eighty. `Bytes n` is a list of bytes together
with the proof of its length, so that lengths are checked once, where a byte string enters, and
nowhere after that.

The module also holds the positional reading of a byte list as a number, least significant byte
first, which is how every integer field of a header and of a transaction is written. The main
statement says that every list is the writing of the number it denotes
(`littleEndian_ofLittleEndian`).
-/

namespace HeaderRules

/-- A byte string of length `n`. -/
structure Bytes (n : Nat) where
  toList : List UInt8
  length_toList : toList.length = n
deriving DecidableEq

namespace Bytes

instance {n : Nat} : Hashable (Bytes n) := ⟨fun b => hash b.toList⟩

instance {n : Nat} : Repr (Bytes n) := ⟨fun b _ => repr b.toList⟩

attribute [simp] length_toList

@[ext] theorem ext {n : Nat} {a b : Bytes n} (h : a.toList = b.toList) : a = b := by
  cases a; cases b; cases h; rfl

/-- The byte string of `n` zeros. -/
def zero (n : Nat) : Bytes n := ⟨List.replicate n 0, by simp⟩

instance {n : Nat} : Inhabited (Bytes n) := ⟨zero n⟩

/-- The bytes in the opposite order. -/
def reverse {n : Nat} (b : Bytes n) : Bytes n := ⟨b.toList.reverse, by simp⟩

@[simp] theorem toList_reverse {n : Nat} (b : Bytes n) : b.reverse.toList = b.toList.reverse := rfl

@[simp] theorem reverse_reverse {n : Nat} (b : Bytes n) : b.reverse.reverse = b := by
  ext1; simp

/-- The `length` bytes from position `start` on. -/
def slice {n : Nat} (b : Bytes n) (start length : Nat) (h : start + length ≤ n := by omega) :
    Bytes length :=
  ⟨(b.toList.drop start).take length, by simp; omega⟩

/-- The list as a byte string, if it has the right length. -/
def ofList? (n : Nat) (bytes : List UInt8) : Option (Bytes n) :=
  if h : bytes.length = n then some ⟨bytes, h⟩ else none

end Bytes

/-! ## Numbers as bytes, least significant first -/

/-- The `width` low bytes of a number, least significant first. -/
def littleEndian : Nat → Nat → List UInt8
  | 0, _ => []
  | width + 1, n => UInt8.ofNat n :: littleEndian width (n / 256)

/-- The number that a byte list denotes, least significant byte first. -/
def ofLittleEndian : List UInt8 → Nat
  | [] => 0
  | b :: bytes => b.toNat + 256 * ofLittleEndian bytes

/-- The `width` low bytes of a number, most significant first. -/
def bigEndian (width n : Nat) : List UInt8 := (littleEndian width n).reverse

@[simp] theorem length_littleEndian (width n : Nat) : (littleEndian width n).length = width := by
  induction width generalizing n with
  | zero => rfl
  | succ width ih => simp [littleEndian, ih]

@[simp] theorem length_bigEndian (width n : Nat) : (bigEndian width n).length = width := by
  simp [bigEndian]

/-- A byte list is the writing of the number it denotes. -/
theorem littleEndian_ofLittleEndian (bytes : List UInt8) :
    littleEndian bytes.length (ofLittleEndian bytes) = bytes := by
  induction bytes with
  | nil => rfl
  | cons b bytes ih =>
    have hb : b.toNat < 256 := b.toNat_lt
    have hdiv : (b.toNat + 256 * ofLittleEndian bytes) / 256 = ofLittleEndian bytes := by omega
    have hmod : UInt8.ofNat (b.toNat + 256 * ofLittleEndian bytes) = b := by
      apply UInt8.toNat_inj.1
      rw [UInt8.toNat_ofNat']
      omega
    simp [littleEndian, ofLittleEndian, hdiv, hmod, ih]

end HeaderRules
