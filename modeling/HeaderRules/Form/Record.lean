import HeaderRules.Json.Value

/-!
# Records and alternatives in JSON

A record is an object with a member for each field; members with other names do not matter. An
array with one item for each field, in order, is read as the same record. An alternative without
content is the string of its name, and is also read from an object whose only member has that name
and is null.
-/

namespace HeaderRules.Json

/-- The values of the fields of a record, in the order of the given names. -/
def fields? (names : List String) : Json → Option (List Json)
  | obj members => names.mapM (obj members).member?
  | arr items => if items.length = names.length then some items else none
  | _ => none

/-- The name of an alternative without content. -/
def alternative? : Json → Option String
  | str name => some name
  | obj [(name, null)] => some name
  | _ => none

/-- A 32-bit word as a number. -/
def ofUInt32 (n : UInt32) : Json := int n.toNat

/-- A 64-bit count as a number. -/
def ofUInt64 (n : UInt64) : Json := int n.toNat

/-- A 64-bit integer as a number. -/
def ofInt64 (n : Int64) : Json := int n.toInt

end HeaderRules.Json
