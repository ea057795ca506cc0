import HeaderRules.Bytes
import Mathlib.Algebra.Group.Nat.Defs

/-!
# Little-endian numbers and powers of 256

A list of bytes denotes a number below the power of 256 that its length gives, and a number is read
back from its writing modulo such a power. Together with `littleEndian_ofLittleEndian` this makes
`littleEndian` a bijection between the numbers below `256 ^ width` and the lists of `width` bytes.
-/

namespace HeaderRules

/-- Reading back what was written gives the number modulo the width. -/
theorem ofLittleEndian_littleEndian (width n : Nat) :
    ofLittleEndian (littleEndian width n) = n % 256 ^ width := by
  induction width generalizing n with
  | zero => simp [littleEndian, ofLittleEndian, Nat.mod_one]
  | succ width ih =>
    rw [pow_succ, Nat.mul_comm (256 ^ width), Nat.mod_mul]
    simp only [littleEndian, ofLittleEndian, ih, UInt8.toNat_ofNat']

/-- A list of bytes denotes a number below the power of 256 that its length gives. -/
theorem ofLittleEndian_lt (bytes : List UInt8) :
    ofLittleEndian bytes < 256 ^ bytes.length := by
  induction bytes with
  | nil => simp [ofLittleEndian]
  | cons b bytes ih =>
    have hb : b.toNat < 256 := b.toNat_lt
    simp only [ofLittleEndian, List.length_cons, pow_succ]
    omega

end HeaderRules
