import HeaderRules.Blank
import HeaderRules.Json.Value

/-!
# Reading JSON

A text is cut into tokens, and the tokens are grouped into a value. Both stages accept exactly the
standard grammar: no blanks but space, tab, line feed and carriage return, no control characters
inside of strings, no lone surrogates, no leading zeros, no trailing commas. Values that are nested
too deeply are refused, and so are numbers beyond the doubles. Where an object has several members
with one name, only the last of them stays.
-/

namespace HeaderRules.Json

/-- A piece of a text: a mark of punctuation, or a value without parts. -/
inductive Token where
  | openArray
  | closeArray
  | openObject
  | closeObject
  | comma
  | colon
  | value (j : Json)
deriving Inhabited

/-! ## Strings -/

/-- The value of four hexadecimal digits. -/
def unit? (a b c d : Char) : Option Nat :=
  [a, b, c, d].foldlM (fun acc x =>
    if x.isDigit then some (16 * acc + (x.toNat - 0x30))
    else if 'a' ≤ x ∧ x ≤ 'f' then some (16 * acc + (x.toNat - 0x57))
    else if 'A' ≤ x ∧ x ≤ 'F' then some (16 * acc + (x.toNat - 0x37))
    else none) 0

/-- The character that a one-letter escape stands for. -/
def shortEscape? (c : Char) : Option Char :=
  match c with
  | '"' => some '"'
  | '\\' => some '\\'
  | '/' => some '/'
  | 'b' => some (Char.ofNat 8)
  | 'f' => some (Char.ofNat 12)
  | 'n' => some '\n'
  | 'r' => some '\r'
  | 't' => some '\t'
  | _ => none

/-- What a string is made of: characters, and UTF-16 units that were written in hexadecimal. -/
inductive Piece where
  | char (c : Char)
  | unit (n : Nat)

/-- The pieces of a string up to its closing quote, and the rest of the text. -/
def pieces? : List Char → Option (List Piece × List Char)
  | [] => none
  | '"' :: rest => some ([], rest)
  | '\\' :: 'u' :: a :: b :: c :: d :: rest => do
    let n ← unit? a b c d
    let (pieces, rest) ← pieces? rest
    return (.unit n :: pieces, rest)
  | '\\' :: c :: rest => do
    let e ← shortEscape? c
    let (pieces, rest) ← pieces? rest
    return (.char e :: pieces, rest)
  | c :: rest =>
    if c.toNat < 32 ∨ c = '\\' then none
    else do
      let (pieces, rest) ← pieces? rest
      return (.char c :: pieces, rest)

/-- The characters of a string. A high surrogate joins with the low one that must follow it; a
surrogate without partner is refused. -/
def join? : List Piece → Option (List Char)
  | [] => some []
  | .char c :: rest => (join? rest).map (c :: ·)
  | .unit n :: .unit m :: rest =>
    if 0xd800 ≤ n ∧ n < 0xdc00 then
      if 0xdc00 ≤ m ∧ m < 0xe000 then
        (join? rest).map (Char.ofNat (0x10000 + (n - 0xd800) * 0x400 + (m - 0xdc00)) :: ·)
      else none
    else if 0xdc00 ≤ n ∧ n < 0xe000 then none
    else (join? (.unit m :: rest)).map (Char.ofNat n :: ·)
  | .unit n :: rest =>
    if 0xd800 ≤ n ∧ n < 0xe000 then none else (join? rest).map (Char.ofNat n :: ·)

/-! ## Numbers -/

/-- The digits at the front of a text and the rest. -/
def spanDigits (cs : List Char) : List Char × List Char :=
  (cs.takeWhile Char.isDigit, cs.dropWhile Char.isDigit)

/-- The number that decimal digits denote. -/
def digitsValue (ds : List Char) : Nat := ds.foldl (fun acc c => 10 * acc + (c.toNat - 0x30)) 0

/-- Appends digits to a number while the result fits into 64 bits. The second component counts the
digits that are left out: the first one that does not fit and all after it. -/
def append (n : Nat) : List Char → Nat × Nat
  | [] => (n, 0)
  | c :: rest =>
    let m := 10 * n + (c.toNat - 0x30)
    if m < UInt64.size then append m rest else (n, rest.length + 1)

/-- The digits after a point, if there is one; a point needs at least one digit after it. -/
def fraction? : List Char → Option (List Char × List Char)
  | '.' :: rest =>
    let (ds, rest) := spanDigits rest
    if ds.isEmpty then none else some (ds, rest)
  | rest => some ([], rest)

/-- The exponent, if there is one. -/
def exponent? : List Char → Option (Option Int × List Char)
  | [] => some (none, [])
  | e :: rest =>
    if e = 'e' ∨ e = 'E' then
      let (negative, rest) :=
        match rest with
        | '-' :: rest => (true, rest)
        | '+' :: rest => (false, rest)
        | rest => (false, rest)
      let (ds, rest) := spanDigits rest
      if ds.isEmpty then none
      else
        let n : Int := digitsValue ds
        some (some (if negative then -n else n), rest)
    else some (none, e :: rest)

/-- The whole number of at most 64 bits with the given sign and magnitude. A minus zero is none. -/
def signed? (negative : Bool) (n : Nat) : Option Int :=
  if !negative then if n < UInt64.size then some n else none
  else if n = 0 ∨ n > 0x8000000000000000 then none
  else some (-n)

/-- The number that digits before and after a point and an exponent denote. Of the digits only as
many are kept as fit into 64 bits; digits before the point that are left out still count as
places. A number beyond the doubles is refused. -/
def ofParts? (negative : Bool) (whole fraction : List Char) (exponent : Option Int) :
    Option Json :=
  let (n, left) := append 0 whole
  match fraction, exponent, left, signed? negative n with
  | [], none, 0, some i => some (.int i)
  | _, _, _, _ =>
    let (digits, unread) := append n fraction
    let d : Decimal :=
      ⟨negative, digits, exponent.getD 0 + left - (fraction.length - unread : Nat)⟩
    if d.toFloat?.isSome then some (.real d) else none

/-- A number without its sign at the front of a text, and the rest. -/
def number? (negative : Bool) (cs : List Char) : Option (Json × List Char) := do
  let (whole, rest) := spanDigits cs
  if whole.isEmpty ∨ (whole.length > 1 ∧ whole.head? = some '0') then none
  let (fraction, rest) ← fraction? rest
  let (exponent, rest) ← exponent? rest
  return (← ofParts? negative whole fraction exponent, rest)

/-! ## Tokens -/

/-- The first token of a text that does not start with a blank, and the rest. -/
def token? : List Char → Option (Token × List Char)
  | '[' :: rest => some (.openArray, rest)
  | ']' :: rest => some (.closeArray, rest)
  | '\x7b' :: rest => some (.openObject, rest)
  | '\x7d' :: rest => some (.closeObject, rest)
  | ',' :: rest => some (.comma, rest)
  | ':' :: rest => some (.colon, rest)
  | '"' :: rest => do
    let (pieces, rest) ← pieces? rest
    let cs ← join? pieces
    return (.value (.str (String.ofList cs)), rest)
  | 'n' :: 'u' :: 'l' :: 'l' :: rest => some (.value .null, rest)
  | 't' :: 'r' :: 'u' :: 'e' :: rest => some (.value (.bool true), rest)
  | 'f' :: 'a' :: 'l' :: 's' :: 'e' :: rest => some (.value (.bool false), rest)
  | '-' :: rest => (number? true rest).map fun (j, rest) => (.value j, rest)
  | cs => (number? false cs).map fun (j, rest) => (.value j, rest)

/-- The tokens of a text, of which there are at most `fuel`. -/
def tokens? : (fuel : Nat) → List Char → Option (List Token)
  | 0, _ => none
  | fuel + 1, cs =>
    match cs.dropWhile Blank.isPlain with
    | [] => some []
    | cs => do
      let (t, rest) ← token? cs
      let ts ← tokens? fuel rest
      return t :: ts

/-! ## Values -/

/-- How many arrays and objects may stand inside of each other. -/
def maxDepth : Nat := 127

/-- Whether tokens that follow `depth` open arrays and objects stay within the greatest depth. -/
def isShallow (depth : Nat) : List Token → Bool
  | [] => true
  | .openArray :: rest => depth < maxDepth && isShallow (depth + 1) rest
  | .openObject :: rest => depth < maxDepth && isShallow (depth + 1) rest
  | .closeArray :: rest => isShallow (depth - 1) rest
  | .closeObject :: rest => isShallow (depth - 1) rest
  | _ :: rest => isShallow depth rest

/-- Members of which each has another name: of several with one name, the last. -/
def distinct : List (String × Json) → List (String × Json)
  | [] => []
  | m :: rest => if rest.any (·.1 = m.1) then distinct rest else m :: distinct rest

mutual

/-- A value at the front of a list of tokens, and the rest; `fuel` bounds the calls that are
nested. -/
def value? : (fuel : Nat) → List Token → Option (Json × List Token)
  | 0, _ => none
  | fuel + 1, ts =>
    match ts with
    | .value j :: rest => some (j, rest)
    | .openArray :: .closeArray :: rest => some (.arr [], rest)
    | .openArray :: rest => (items? fuel rest).map fun (items, rest) => (.arr items, rest)
    | .openObject :: .closeObject :: rest => some (.obj [], rest)
    | .openObject :: rest => (members? fuel rest).map fun (ms, rest) => (.obj (distinct ms), rest)
    | _ => none

/-- The items of an array up to its end. -/
def items? : (fuel : Nat) → List Token → Option (List Json × List Token)
  | 0, _ => none
  | fuel + 1, ts =>
    match value? fuel ts with
    | some (j, .closeArray :: rest) => some ([j], rest)
    | some (j, .comma :: rest) => (items? fuel rest).map fun (items, rest) => (j :: items, rest)
    | _ => none

/-- The members of an object up to its end. -/
def members? : (fuel : Nat) → List Token → Option (List (String × Json) × List Token)
  | 0, _ => none
  | fuel + 1, ts =>
    match ts with
    | .value (.str name) :: .colon :: rest =>
      match value? fuel rest with
      | some (j, .closeObject :: rest) => some ([(name, j)], rest)
      | some (j, .comma :: rest) =>
        (members? fuel rest).map fun (ms, rest) => ((name, j) :: ms, rest)
      | _ => none
    | _ => none

end

/-- The value that a whole text denotes. -/
def parse? (text : String) : Option Json := do
  let cs := text.toList
  let ts ← tokens? (cs.length + 1) cs
  if !isShallow 0 ts then none
  match value? (2 * ts.length + 2) ts with
  | some (j, []) => some j
  | _ => none

/-- The texts of an array of strings. -/
def strings? (j : Json) : Option (List String) := j.arr?.bind fun items => items.mapM str?

end HeaderRules.Json
