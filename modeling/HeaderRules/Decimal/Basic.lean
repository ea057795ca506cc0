/-!
# Decimal numerals

A decimal numeral is a sign, a number of digits and a power of ten. It is what a written number with
a point or an exponent says, before it becomes a double, and what a double is written as.

A numeral becomes a double in few steps: its digits are rounded to a double, which is then
multiplied or divided by a power of ten, itself rounded to a double. The result is the double next
to the numeral wherever both of these are exact, and elsewhere it may be off by a rounding.
-/

namespace HeaderRules

/-- The number `± digits · 10 ^ exponent`. -/
structure Decimal where
  negative : Bool
  digits : Nat
  exponent : Int
deriving DecidableEq, Repr, Inhabited

namespace Decimal

/-- A power of ten. -/
def tenPower (n : Nat) : Nat := Nat.pow 10 n

/-- The greatest exponent of a power of ten that is below the greatest double. -/
def maxExponent : Nat := 308

/-- The double next to a power of ten, whose exponent is at most `maxExponent`. -/
def floatPower (n : Nat) : Float := Float.ofScientific 1 false n

/-- A double times `10 ^ exponent`; nothing if the result is too big. Far below the least exponent
of a power of ten the division is done in steps, of which `fuel` are more than enough: two of them
bring every 64-bit number to zero. -/
def scale? : (fuel : Nat) → Float → (exponent : Int) → Option Float
  | 0, f, _ => some f
  | fuel + 1, f, exponent =>
    if exponent.natAbs ≤ maxExponent then
      let power := floatPower exponent.natAbs
      if 0 ≤ exponent then
        let product := f * power
        if product.isInf then none else some product
      else some (f / power)
    else if f == 0.0 then some f
    else if 0 ≤ exponent then none
    else scale? fuel (f / floatPower maxExponent) (exponent + maxExponent)

/-- The double of a numeral whose digits fit into 64 bits; nothing if it is too big. -/
def toFloat? (d : Decimal) : Option Float :=
  (scale? 4 (UInt64.ofNat d.digits).toFloat d.exponent).map fun f =>
    if d.negative then -f else f

/-- The digits and the exponent with the zeros at the end of the digits moved into the exponent.
There are at most `fuel` of them. -/
def stripZeros : (fuel : Nat) → Nat → Int → Nat × Int
  | 0, digits, exponent => (digits, exponent)
  | fuel + 1, digits, exponent =>
    if digits ≠ 0 ∧ digits % 10 = 0 then stripZeros fuel (digits / 10) (exponent + 1)
    else (digits, exponent)

/-- `n` zeros. -/
def zeros (n : Nat) : String := String.ofList (List.replicate n '0')

/-- The written form of a numeral without zeros at its end. Up to sixteen digits stand before the
point and up to five zeros after it; numerals outside of that range have an exponent. -/
def text (d : Decimal) : String :=
  let sign := if d.negative then "-" else ""
  if d.digits = 0 then sign ++ "0.0"
  else
    let digits := toString d.digits
    let point := digits.length + d.exponent
    let body :=
      if 0 ≤ d.exponent ∧ point ≤ 16 then digits ++ zeros d.exponent.toNat ++ ".0"
      else if 0 < point ∧ point ≤ 16 then
        (digits.take point.toNat).toString ++ "." ++ (digits.drop point.toNat).toString
      else if -5 < point ∧ point ≤ 0 then "0." ++ zeros (-point).toNat ++ digits
      else
        let tail := (digits.drop 1).toString
        (digits.take 1).toString ++ (if tail.isEmpty then "" else "." ++ tail) ++ "e" ++
          toString (point - 1)
    sign ++ body

end Decimal

end HeaderRules
