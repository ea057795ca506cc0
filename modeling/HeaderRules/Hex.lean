import HeaderRules.Bytes

/-!
# Hexadecimal text

Bytes are written as two lowercase digits each and read from digits of either case. Reading looks
at the UTF-8 bytes of a text and names the first thing that is wrong with it, in a fixed order: an
odd number of digits, then (where a length is asked for) a wrong length, then the first byte that
is no digit.

Numbers have two written forms: `fixed`, with a given number of digits, and `minimal`, without
leading zeros.
-/

namespace HeaderRules

/-- What is wrong with a text that should be hexadecimal. -/
inductive HexError where
  /-- The text has an odd number of bytes. -/
  | oddLength
  /-- The text does not have the length that is asked for. -/
  | invalidLength
  /-- The byte at the index is no hexadecimal digit. -/
  | invalidCharacter (byte : UInt8) (index : Nat)
deriving DecidableEq, Repr

namespace Hex

/-! ## Digits -/

/-- The digit of a value below sixteen, in lowercase. -/
def digit (n : Nat) : Char := Nat.digitChar n

/-- The value of an ASCII digit of either case. -/
def value? (byte : UInt8) : Option UInt8 :=
  if 0x30 ≤ byte ∧ byte ≤ 0x39 then some (byte - 0x30)
  else if 0x61 ≤ byte ∧ byte ≤ 0x66 then some (byte - 0x57)
  else if 0x41 ≤ byte ∧ byte ≤ 0x46 then some (byte - 0x37)
  else none

/-! ## Bytes as text -/

/-- Two digits for each byte, the high half first. -/
def encodeChars : List UInt8 → List Char
  | [] => []
  | b :: bytes => digit (b.toNat / 16) :: digit (b.toNat % 16) :: encodeChars bytes

/-- The written form of a byte list. -/
def encode (bytes : List UInt8) : String := String.ofList (encodeChars bytes)

/-- The UTF-8 bytes of a list of characters. -/
def utf8 (chars : List Char) : List UInt8 := chars.flatMap String.utf8EncodeChar

/-- The value of the digit at an index, or the complaint about it. -/
def digitAt (byte : UInt8) (index : Nat) : Except HexError UInt8 :=
  match value? byte with
  | some v => .ok v
  | none => .error (.invalidCharacter byte index)

/-- Reads pairs of digits; `index` is the position of the first one. A single digit at the end is
not reached from the functions below, which look at the length first. -/
def decodePairs (index : Nat) : List UInt8 → Except HexError (List UInt8)
  | high :: low :: rest => do
    let h ← digitAt high index
    let l ← digitAt low (index + 1)
    let bytes ← decodePairs (index + 2) rest
    return (h * 16 + l) :: bytes
  | _ => .ok []

/-- The bytes written by a text of any even length. -/
def decode (text : String) : Except HexError (List UInt8) :=
  let digits := utf8 text.toList
  if digits.length % 2 = 1 then .error .oddLength else decodePairs 0 digits

theorem length_of_decodePairs {index : Nat} {digits bytes : List UInt8}
    (h : decodePairs index digits = .ok bytes) : bytes.length = digits.length / 2 := by
  match digits with
  | [] => simp_all [decodePairs]
  | [_] => simp_all [decodePairs]
  | high :: low :: rest =>
    rw [decodePairs] at h
    cases hh : digitAt high index with
    | error e => simp [hh, bind, Except.bind] at h
    | ok a =>
      cases hl : digitAt low (index + 1) with
      | error e => simp [hh, hl, bind, Except.bind] at h
      | ok b =>
        cases hr : decodePairs (index + 2) rest with
        | error e => simp [hh, hl, hr, bind, Except.bind] at h
        | ok tail =>
          simp only [hh, hl, hr, bind, Except.bind, pure, Except.pure, Except.ok.injEq] at h
          subst h
          have := length_of_decodePairs hr
          simp only [List.length_cons]
          omega

/-- The `n` bytes written by a list of characters. -/
def decodeChars (n : Nat) (chars : List Char) : Except HexError (Bytes n) :=
  let digits := utf8 chars
  if digits.length % 2 = 1 then .error .oddLength
  else if hn : digits.length / 2 ≠ n then .error .invalidLength
  else
    match h : decodePairs 0 digits with
    | .ok bytes => .ok ⟨bytes, by rw [length_of_decodePairs h]; omega⟩
    | .error e => .error e

/-- The `n` bytes written by a text. -/
def decodeBytes (n : Nat) (text : String) : Except HexError (Bytes n) := decodeChars n text.toList

/-! ## Numbers as text -/

/-- The `width` low digits of a number, the most significant first. -/
def fixed : Nat → Nat → List Char
  | 0, _ => []
  | width + 1, n => fixed width (n / 16) ++ [digit (n % 16)]

/-- The digits of a number without leading zeros; zero has one digit. -/
def minimal (n : Nat) : List Char := Nat.toDigits 16 n

/-- The value of a digit character of either case. -/
def charValue? (c : Char) : Option Nat :=
  if '0' ≤ c ∧ c ≤ '9' then some (c.toNat - 0x30)
  else if 'a' ≤ c ∧ c ≤ 'f' then some (c.toNat - 0x57)
  else if 'A' ≤ c ∧ c ≤ 'F' then some (c.toNat - 0x37)
  else none

/-- The number that digits of either case denote, read after the number `acc`; no digits denote
`acc` itself. -/
def number? (acc : Nat) : List Char → Option Nat
  | [] => some acc
  | c :: cs => (charValue? c).bind fun v => number? (16 * acc + v) cs

end Hex

/-! ## Messages -/

namespace HexError

/-- A byte as a quoted character: the character with that code, or an escape where it is not
printable. -/
def quoted (byte : UInt8) : String :=
  let body :=
    if byte = 0x00 then "\\0"
    else if byte = 0x09 then "\\t"
    else if byte = 0x0a then "\\n"
    else if byte = 0x0d then "\\r"
    else if byte = 0x27 then "\\'"
    else if byte = 0x5c then "\\\\"
    else if byte < 0x20 ∨ (0x7f ≤ byte ∧ byte ≤ 0xa0) ∨ byte = 0xad then
      "\\u\x7b" ++ String.ofList (Hex.minimal byte.toNat) ++ "\x7d"
    else String.singleton (Char.ofNat byte.toNat)
  "'" ++ body ++ "'"

/-- What is wrong, in words. -/
def message : HexError → String
  | oddLength => "Odd number of digits"
  | invalidLength => "Invalid string length"
  | invalidCharacter byte index =>
    "Invalid character " ++ quoted byte ++ " at position " ++ toString index

end HexError

end HeaderRules
