/-!
# Saturating arithmetic

Heights and block counts are 32-bit words and timespans are 64-bit integers. Where a result would
leave its range it stays at the nearest end. Each operation is the exact one followed by a clamp,
which is what the lemmas beside it say.
-/

namespace HeaderRules

/-! ## 32-bit words -/

/-- The sum, at most 2³² - 1. -/
def satAdd (a b : UInt32) : UInt32 := UInt32.ofNat (min (a.toNat + b.toNat) 0xffffffff)

/-- The difference, at least zero. -/
def satSub (a b : UInt32) : UInt32 := UInt32.ofNat (a.toNat - b.toNat)

/-- The product, at most 2³² - 1. -/
def satMul (a b : UInt32) : UInt32 := UInt32.ofNat (min (a.toNat * b.toNat) 0xffffffff)

theorem toNat_satAdd (a b : UInt32) :
    (satAdd a b).toNat = min (a.toNat + b.toNat) 0xffffffff := by
  unfold satAdd
  rw [UInt32.toNat_ofNat']
  omega

theorem toNat_satSub (a b : UInt32) : (satSub a b).toNat = a.toNat - b.toNat := by
  have := a.toNat_lt
  unfold satSub
  rw [UInt32.toNat_ofNat']
  omega

/-! ## 64-bit integers -/

/-- The integer moved to the nearest end of the 64-bit range if it lies outside. -/
def clampInt64 (n : Int) : Int64 :=
  Int64.ofInt (max (-0x8000000000000000) (min n 0x7fffffffffffffff))

theorem toInt_clampInt64 (n : Int) :
    (clampInt64 n).toInt = max (-0x8000000000000000) (min n 0x7fffffffffffffff) := by
  unfold clampInt64
  rw [Int64.toInt_ofInt_of_le] <;> omega

theorem toInt_clampInt64_of_mem {n : Int} (h₁ : -0x8000000000000000 ≤ n)
    (h₂ : n ≤ 0x7fffffffffffffff) : (clampInt64 n).toInt = n := by
  rw [toInt_clampInt64]
  omega

/-- The difference, clamped to the 64-bit range. -/
def satSub64 (a b : Int64) : Int64 := clampInt64 (a.toInt - b.toInt)

/-- The product, clamped to the 64-bit range. -/
def satMul64 (a b : Int64) : Int64 := clampInt64 (a.toInt * b.toInt)

/-- A 32-bit count of seconds as a 64-bit integer. -/
def seconds (t : UInt32) : Int64 := Int64.ofNat t.toNat

theorem toInt_seconds (t : UInt32) : (seconds t).toInt = t.toNat := by
  have := t.toNat_lt
  unfold seconds
  rw [Int64.toInt_ofNat_of_lt]
  omega

/-- A 64-bit count as a 64-bit integer; counts that do not fit become the greatest one. -/
def signedCount (n : UInt64) : Int64 := clampInt64 n.toNat

/-- A 64-bit integer as a count, if it is not negative. -/
def unsignedCount? (n : Int64) : Option UInt64 := if 0 ≤ n then some n.toUInt64 else none

end HeaderRules
