import HeaderRules.Decimal.Basic

/-!
# JSON values

A value of the data format in which parameters are printed and headers are read. Whole numbers and
numbers with a point or an exponent are told apart, because a field that holds a count accepts only
the former. Objects keep the order of their members.
-/

namespace HeaderRules

/-- A JSON value. -/
inductive Json where
  | null
  | bool (b : Bool)
  /-- A whole number of at most 64 bits. -/
  | int (n : Int)
  /-- Any other number. -/
  | real (d : Decimal)
  | str (s : String)
  | arr (items : List Json)
  | obj (members : List (String × Json))
deriving Inhabited

namespace Json

/-- The member of an object with a name. -/
def member? (j : Json) (name : String) : Option Json :=
  match j with
  | obj members => members.lookup name
  | _ => none

/-- The text of a string. -/
def str? : Json → Option String
  | str s => some s
  | _ => none

/-- The items of an array. -/
def arr? : Json → Option (List Json)
  | arr items => some items
  | _ => none

/-- A whole number between two bounds, the upper one excluded. -/
def intIn? (low high : Int) : Json → Option Int
  | int n => if low ≤ n ∧ n < high then some n else none
  | _ => none

/-- A byte. -/
def uint8? (j : Json) : Option UInt8 := (j.intIn? 0 UInt8.size).map fun n => UInt8.ofNat n.toNat

/-- A 32-bit word. -/
def uint32? (j : Json) : Option UInt32 :=
  (j.intIn? 0 UInt32.size).map fun n => UInt32.ofNat n.toNat

/-- A 64-bit word. -/
def uint64? (j : Json) : Option UInt64 :=
  (j.intIn? 0 UInt64.size).map fun n => UInt64.ofNat n.toNat

/-- A 32-bit integer. -/
def int32? (j : Json) : Option Int32 := (j.intIn? (-0x80000000) 0x80000000).map Int32.ofInt

/-- A 64-bit integer. -/
def int64? (j : Json) : Option Int64 :=
  (j.intIn? (-0x8000000000000000) 0x8000000000000000).map Int64.ofInt

/-- The double of a number. -/
def float? : Json → Option Float
  | int n => (Decimal.mk (n < 0) n.natAbs 0).toFloat?
  | real d => d.toFloat?
  | _ => none

end Json

end HeaderRules
