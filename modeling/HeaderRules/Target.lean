import HeaderRules.Hex

/-!
# Targets

A target is the 256-bit threshold that the proof of work of a block must not exceed: the lower the
target, the harder the block. Targets are kept as 256-bit words, and every scaling forms its
product in 512 bits, so that the only loss is the final truncating division. A quotient that no
longer fits into 256 bits becomes the greatest target; callers limit the result to the easiest
target of their chain, which makes that end of the range invisible.
-/

namespace HeaderRules

/-- A 256-bit threshold for the proof of work. -/
structure Target where
  value : BitVec 256
deriving DecidableEq, Repr, Inhabited

namespace Target

/-- The number that a target is. -/
def toNat (t : Target) : Nat := t.value.toNat

theorem toNat_inj {s t : Target} : s.toNat = t.toNat ↔ s = t := by
  cases s; cases t; simp [toNat, BitVec.toNat_inj]

/-- The target with a number below 2²⁵⁶; greater numbers lose their high bits. -/
def ofNat (n : Nat) : Target := ⟨BitVec.ofNat 256 n⟩

instance : LE Target := ⟨fun s t => s.toNat ≤ t.toNat⟩

instance : LT Target := ⟨fun s t => s.toNat < t.toNat⟩

instance : DecidableLE Target := fun s t => inferInstanceAs (Decidable (s.toNat ≤ t.toNat))

instance : DecidableLT Target := fun s t => inferInstanceAs (Decidable (s.toNat < t.toNat))

instance : Ord Target := ⟨fun s t => compare s.toNat t.toNat⟩

/-- The target that no digest but zero meets. -/
def zero : Target := ⟨0⟩

/-- The greatest 256-bit number. -/
def greatest : Target := ⟨BitVec.allOnes 256⟩

/-- Whether a target is zero. -/
def isZero (t : Target) : Bool := t.value == 0

/-- The number whose thirty-two bytes are given, the most significant first. -/
def ofBigEndian (bytes : Bytes 32) : Target := ofNat (ofLittleEndian bytes.toList.reverse)

/-! ## Written forms -/

/-- Drops the characters `0x` from the front, once. -/
def dropRadix : List Char → List Char
  | '0' :: 'x' :: cs => cs
  | cs => cs

/-- The target that a text of at most sixty-four hexadecimal digits denotes, after an optional
`0x`; without digits it is zero. -/
def ofHex? (text : String) : Option Target :=
  let digits := dropRadix text.toList
  if digits.length ≤ 64 then (Hex.number? 0 digits).map ofNat else none

/-- A target in sixty-four lowercase digits. -/
def text (t : Target) : String := String.ofList (Hex.fixed 64 t.toNat)

/-! ## Scaling -/

/-- The 512-bit word that has the number of a target. -/
def widen (t : Target) : BitVec 512 := t.value.setWidth 512

/-- The target with the number of a 512-bit word, or the greatest target if the number is too
big. -/
def narrow (w : BitVec 512) : Target :=
  if w ≤ greatest.widen then ⟨w.setWidth 256⟩ else greatest

/-- A target times `numerator` over `denominator`, rounded down; nothing for a zero
denominator. -/
def mulDiv (t : Target) (numerator denominator : UInt64) : Option Target :=
  if denominator = 0 then none
  else some (narrow
    (t.widen * BitVec.ofNat 512 numerator.toNat / BitVec.ofNat 512 denominator.toNat))

end Target

end HeaderRules
