import HeaderRules.Json.Value

/-!
# Printing JSON

Two layouts: `render` puts a value on one line without blanks, `pretty` gives every item and every
member a line of its own, indented by two blanks for each level.
-/

namespace HeaderRules.Json

/-- A character of a string as it is written: quotes, backslashes and control characters are
escaped, everything else stands for itself. -/
def escape (c : Char) : List Char :=
  if c = '"' then ['\\', '"']
  else if c = '\\' then ['\\', '\\']
  else if c = '\n' then ['\\', 'n']
  else if c = '\r' then ['\\', 'r']
  else if c = '\t' then ['\\', 't']
  else if c.toNat = 8 then ['\\', 'b']
  else if c.toNat = 12 then ['\\', 'f']
  else if c.toNat < 32 then
    ['\\', 'u', '0', '0', Nat.digitChar (c.toNat / 16), Nat.digitChar (c.toNat % 16)]
  else [c]

/-- A string in quotes. -/
def quote (s : String) : String := String.ofList ('"' :: s.toList.flatMap escape ++ ['"'])

/-- The written form of a value that has no parts. -/
def scalar : Json → String
  | null => "null"
  | bool true => "true"
  | bool false => "false"
  | int n => toString n
  | real d => d.text
  | str s => quote s
  | arr _ => ""
  | obj _ => ""

mutual

/-- A text followed by a value on one line. -/
def renderTo (out : String) : Json → String
  | arr items => renderItems (out ++ "[") items ++ "]"
  | obj members => renderMembers (out ++ "\x7b") members ++ "\x7d"
  | null => out ++ scalar null
  | bool b => out ++ scalar (bool b)
  | int n => out ++ scalar (int n)
  | real d => out ++ scalar (real d)
  | str s => out ++ scalar (str s)

/-- A text followed by items with commas between them. -/
def renderItems (out : String) : List Json → String
  | [] => out
  | [item] => renderTo out item
  | item :: items => renderItems (renderTo out item ++ ",") items

/-- A text followed by members with commas between them. -/
def renderMembers (out : String) : List (String × Json) → String
  | [] => out
  | [(name, value)] => renderTo (out ++ quote name ++ ":") value
  | (name, value) :: members =>
    renderMembers (renderTo (out ++ quote name ++ ":") value ++ ",") members

end

/-- A value on one line. -/
def render (j : Json) : String := renderTo "" j

/-- A new line at a level of indentation. -/
def newline (level : Nat) : String :=
  String.ofList ('\n' :: List.replicate (2 * level) ' ')

mutual

/-- A text followed by a value over several lines, of which the first one is at the given
level. -/
def prettyTo (out : String) (level : Nat) : Json → String
  | arr [] => out ++ "[]"
  | arr (item :: items) =>
    let out := prettyTo (out ++ "[" ++ newline (level + 1)) (level + 1) item
    prettyItems out (level + 1) items ++ newline level ++ "]"
  | obj [] => out ++ "\x7b\x7d"
  | obj ((name, value) :: members) =>
    let out := out ++ "\x7b" ++ newline (level + 1) ++ quote name ++ ": "
    prettyMembers (prettyTo out (level + 1) value) (level + 1) members ++ newline level ++ "\x7d"
  | null => out ++ scalar null
  | bool b => out ++ scalar (bool b)
  | int n => out ++ scalar (int n)
  | real d => out ++ scalar (real d)
  | str s => out ++ scalar (str s)

/-- A text followed by further items of an array, each after a comma on its own line. -/
def prettyItems (out : String) (level : Nat) : List Json → String
  | [] => out
  | item :: items => prettyItems (prettyTo (out ++ "," ++ newline level) level item) level items

/-- A text followed by further members of an object, each after a comma on its own line. -/
def prettyMembers (out : String) (level : Nat) : List (String × Json) → String
  | [] => out
  | (name, value) :: members =>
    let out := prettyTo (out ++ "," ++ newline level ++ quote name ++ ": ") level value
    prettyMembers out level members

end

/-- A value over several lines. -/
def pretty (j : Json) : String := prettyTo "" 0 j

end HeaderRules.Json
