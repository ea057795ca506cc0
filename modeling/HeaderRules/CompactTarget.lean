import HeaderRules.Target

/-!
# Compact targets

A block header declares its target in 32 bits: an exponent byte, a sign bit and a mantissa of 23
bits, which stand for `mantissa · 256 ^ (exponent - 3)`. Many codes denote the same target and some
denote none, because they are negative or do not fit into 256 bits; `Target.toCompact` always
writes the shortest form, whose mantissa never reaches the sign bit.

Besides the decoder and the encoder the module holds the two things the difficulty rules do with a
declared code: masking a computed target to the window of digits that the code can carry, and the
floating-point difficulty that early tolerance checks compare.
-/

namespace HeaderRules

/-- The 32-bit code of a target, as it stands in a block header. -/
structure CompactTarget where
  bits : UInt32
deriving DecidableEq, Repr, Inhabited

namespace CompactTarget

instance : LE CompactTarget := ⟨fun c d => c.bits ≤ d.bits⟩

instance : LT CompactTarget := ⟨fun c d => c.bits < d.bits⟩

instance : DecidableLE CompactTarget := fun c d => inferInstanceAs (Decidable (c.bits ≤ d.bits))

instance : DecidableLT CompactTarget := fun c d => inferInstanceAs (Decidable (c.bits < d.bits))

instance : Ord CompactTarget := ⟨fun c d => compare c.bits d.bits⟩

/-- The size byte of a code. -/
def exponent (c : CompactTarget) : Nat := (c.bits >>> 24).toNat

/-- The 23 bits below the sign. -/
def mantissa (c : CompactTarget) : UInt32 := c.bits &&& 0x007fffff

/-- Whether the sign bit is set. -/
def isSigned (c : CompactTarget) : Bool := c.bits &&& 0x00800000 != 0

/-- A code in eight lowercase digits after `0x`. -/
def text (c : CompactTarget) : String := String.ofList ('0' :: 'x' :: Hex.fixed 8 c.bits.toNat)

/-- The difficulty relative to the code `0x1d00ffff`: the quotient of 0xffff and the low 24 bits,
sign included, scaled by powers of 256 until the exponent is 29. -/
def difficulty (c : CompactTarget) : Float :=
  let field := Float.ofNat 0xffff / (c.bits &&& 0x00ffffff).toFloat
  Nat.repeat (· / 256.0) (c.exponent - 29) (Nat.repeat (· * 256.0) (29 - c.exponent) field)

end CompactTarget

namespace Target

/-- The target that a code denotes. A zero mantissa denotes zero; a negative code and one whose
value would not fit into 256 bits denote nothing. -/
def ofCompact? (c : CompactTarget) : Option Target :=
  let e := c.exponent
  let m := c.mantissa
  if m = 0 then some zero
  else if c.isSigned then none
  else if e > 34 ∨ (m > 0xff ∧ e > 33) ∨ (m > 0xffff ∧ e > 32) then none
  else
    let base := BitVec.ofNat 256 m.toNat
    some ⟨if e ≤ 3 then base >>> (8 * (3 - e)) else base <<< (8 * (e - 3))⟩

/-- How many bytes a target takes up. -/
def byteLength (t : Target) : Nat := if t.toNat = 0 then 0 else (Nat.log2 t.toNat + 8) / 8

/-- The three leading bytes of a target of the given length. -/
def leadingBytes (t : Target) (size : Nat) : UInt32 :=
  if size ≤ 3 then UInt32.ofNat t.toNat <<< UInt32.ofNat (8 * (3 - size))
  else UInt32.ofNat (t.value >>> (8 * (size - 3))).toNat &&& 0x00ffffff

/-- The shortest code of a target. Only the three leading bytes are kept, or two where the first of
them would reach the sign bit. -/
def toCompact (t : Target) : CompactTarget :=
  if t.isZero then ⟨0⟩
  else
    let size := t.byteLength
    let lead := t.leadingBytes size
    if lead &&& 0x00800000 != 0 then ⟨(UInt32.ofNat (size + 1) <<< 24) ||| (lead >>> 8)⟩
    else ⟨(UInt32.ofNat size <<< 24) ||| lead⟩

/-- The target reduced to the three bytes at the position that the exponent of a declared code
gives them; a window past the 256 bits keeps nothing. -/
def maskToPrecisionOf (t : Target) (declared : CompactTarget) : Target :=
  let e := declared.exponent
  let window : BitVec 256 := 0x00ffffff
  let mask := if 3 ≤ e then window <<< (8 * (e - 3)) else window >>> (8 * (3 - e))
  ⟨t.value &&& mask⟩

end Target

end HeaderRules
