import HeaderRules.Hash.Aes

/-!
# Grøstl-512

The third X11 stage: a wide-pipe design whose two permutations `P` and `Q` apply AES-like rounds to
a state of eight rows and sixteen columns. The state is an array of 128 bytes in column order, so
the byte of row `r` in column `c` stands at position `8 c + r`.
-/

namespace HeaderRules.Hash.Groestl512

/-- A state of 128 bytes, column by column. -/
abbrev State := Array UInt8

/-- How one of the two permutations differs from the other. -/
structure Variant where
  /-- What round `r` adds to the byte of row `i` in column `j`. -/
  constant : (r i j : Nat) → UInt8
  /-- By how many columns each row is rotated to the left. -/
  shifts : Array Nat

/-- The permutation of the chaining value: constants in the first row. -/
def permutationP : Variant where
  constant r i j := if i = 0 then UInt8.ofNat (16 * j) ^^^ UInt8.ofNat r else 0
  shifts := #[0, 1, 2, 3, 4, 5, 6, 11]

/-- The permutation of the message: all bytes are complemented, with constants in the last row. -/
def permutationQ : Variant where
  constant r i j := if i = 7 then 0xff ^^^ UInt8.ofNat (16 * j) ^^^ UInt8.ofNat r else 0xff
  shifts := #[1, 3, 5, 11, 0, 2, 4, 6]

/-- One byte of the mixed columns, as the product of a column with a row of the circulant matrix
that starts with 2, 2, 3, 4, 5, 3, 5, 7. -/
def mixedByte (s : State) (column row : Nat) : UInt8 :=
  let b (k : Nat) : UInt8 := s.getD (8 * column + (row + k) % 8) 0
  let twice := Aes.double
  let four (x : UInt8) : UInt8 := twice (twice x)
  twice (b 0) ^^^ twice (b 1) ^^^ (twice (b 2) ^^^ b 2) ^^^ four (b 3) ^^^ (four (b 4) ^^^ b 4) ^^^
    (twice (b 5) ^^^ b 5) ^^^ (four (b 6) ^^^ b 6) ^^^ (four (b 7) ^^^ twice (b 7) ^^^ b 7)

/-- One round: constants, substitution, row rotation, column mix. -/
def round (variant : Variant) (s : State) (r : Nat) : State :=
  let substituted : State :=
    Array.ofFn fun k : Fin 128 =>
      Aes.substitute (s.getD k 0 ^^^ variant.constant r (k.val % 8) (k.val / 8))
  let shifted : State :=
    Array.ofFn fun k : Fin 128 =>
      substituted.getD (8 * ((k.val / 8 + variant.shifts.getD (k.val % 8) 0) % 16) + k.val % 8) 0
  Array.ofFn fun k : Fin 128 => mixedByte shifted (k.val / 8) (k.val % 8)

/-- Fourteen rounds. -/
def permute (variant : Variant) (s : State) : State :=
  (List.range 14).foldl (round variant) s

/-- The bitwise difference of two states. -/
def xor (a b : State) : State := a.zipWith (· ^^^ ·) b

/-- The chaining value before the first block: the digest length in bits, in the last bytes. -/
def initial : State := (Array.replicate 126 0).push 0x02 |>.push 0x00

/-- Absorbs a block of 128 bytes. -/
def compress (h : State) (block : List UInt8) : State :=
  xor (xor (permute permutationP (xor h block.toArray)) (permute permutationQ block.toArray)) h

/-- The message followed by a one bit, zeros and the number of blocks in eight big-endian bytes. -/
def pad (message : List UInt8) : List UInt8 :=
  let body := message ++ 0x80 :: List.replicate ((247 - message.length % 128) % 128) 0
  body ++ bigEndian 8 ((body.length + 8) / 128)

/-- The digest of a message: the second half of the chaining value after a last permutation. -/
def hash (message : List UInt8) : List UInt8 :=
  let h := (pieces 128 (pad message)).foldl compress initial
  (xor (permute permutationP h) h).toList.drop 64

end HeaderRules.Hash.Groestl512
