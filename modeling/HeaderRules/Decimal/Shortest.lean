import HeaderRules.Decimal.Basic

/-!
# The shortest numeral of a double

A finite double is `m · 2 ^ q` for whole numbers `m` and `q`, and it is the nearest double to every
number of an interval around it, whose ends belong to it if `m` is even. Its shortest numeral has
as few digits as a number of that interval can have, and is the one nearest to the double among
those. For a growing count of digits the two neighbours of the double on the decimal grid are
tested against the interval, in exact arithmetic; seventeen digits always suffice.
-/

namespace HeaderRules.Decimal

/-- A positive double in exact form: the double is `4 · m` quarter units, a unit being
`numerator / denominator` quarters, and the interval goes from `low` to `high` of them. -/
structure Exact where
  middle : Nat
  low : Nat
  high : Nat
  numerator : Nat
  denominator : Nat
  /-- Whether the ends belong to the interval. -/
  closed : Bool

/-- The exact form of the double with the given bits; the sign is ignored. -/
def Exact.ofBits (bits : UInt64) : Exact :=
  let fraction := bits.toNat % 0x10000000000000
  let biased := bits.toNat / 0x10000000000000 % 0x800
  let m := if biased = 0 then fraction else fraction + 0x10000000000000
  let q : Int := (max biased 1 : Nat) - 1077
  { middle := 4 * m
    low := if fraction = 0 ∧ biased > 1 then 4 * m - 1 else 4 * m - 2
    high := 4 * m + 2
    numerator := 1 <<< q.toNat
    denominator := 1 <<< (-q).toNat
    closed := m % 2 = 0 }

/-- Whether `digits · 10 ^ exponent` lies in the interval. -/
def Exact.contains (x : Exact) (digits : Nat) (exponent : Int) : Bool :=
  let left := digits * tenPower exponent.toNat * x.denominator
  let unit := x.numerator * tenPower (-exponent).toNat
  if x.closed then x.low * unit ≤ left && left ≤ x.high * unit
  else x.low * unit < left && left < x.high * unit

/-- The greatest multiple of `10 ^ exponent` that is not above the double. -/
def Exact.floor (x : Exact) (exponent : Int) : Nat :=
  x.middle * x.numerator * tenPower (-exponent).toNat / (x.denominator * tenPower exponent.toNat)

/-- Whether the multiple after `digits` is nearer to the double than `digits` itself; of two that
are equally near, the even one counts as nearer. -/
def Exact.roundsUp (x : Exact) (digits : Nat) (exponent : Int) : Bool :=
  let halfway := (2 * digits + 1) * tenPower exponent.toNat * x.denominator
  let double := 2 * (x.middle * x.numerator * tenPower (-exponent).toNat)
  halfway < double || (halfway == double && digits % 2 == 1)

/-- The neighbour of the double on the grid of an exponent that lies in the interval, the nearer
one if both do. -/
def Exact.onGrid? (x : Exact) (exponent : Int) : Option Nat :=
  let below := x.floor exponent
  let hasBelow := below ≠ 0 && x.contains below exponent
  let hasAbove := x.contains (below + 1) exponent
  if hasBelow && hasAbove then
    some (if x.roundsUp below exponent then below + 1 else below)
  else if hasBelow then some below
  else if hasAbove then some (below + 1)
  else none

/-- The first hit on the grids from `exponent` down, of which `fuel` are tried. -/
def Exact.search (x : Exact) : (fuel : Nat) → (exponent : Int) → Nat × Int
  | 0, exponent => (x.floor exponent, exponent)
  | fuel + 1, exponent =>
    match x.onGrid? exponent with
    | some digits => (digits, exponent)
    | none => Exact.search x fuel (exponent - 1)

/-- The shortest numeral of a finite double. The search starts above the greatest power of ten that
a double can reach. -/
def ofFloat (f : Float) : Decimal :=
  let bits := f.toBits
  let negative := bits ≥ 0x8000000000000000
  if bits &&& 0x7fffffffffffffff = 0 then ⟨negative, 0, 0⟩
  else
    let (digits, exponent) := (Exact.ofBits bits).search 660 309
    let (digits, exponent) := stripZeros 400 digits exponent
    ⟨negative, digits, exponent⟩

end HeaderRules.Decimal
