import HeaderRules.Hash.Words

/-!
# Keccak-512

The sixth X11 stage: the sponge over the permutation of twenty-five 64-bit lanes, with the padding
of the first submission, a single one bit at either end. Lane `(x, y)` stands at position
`x + 5 y`.
-/

namespace HeaderRules.Hash.Keccak512

/-- The constants of the twenty-four rounds. -/
def roundConstants : List UInt64 := [
  0x0000000000000001, 0x0000000000008082, 0x800000000000808a, 0x8000000080008000,
  0x000000000000808b, 0x0000000080000001, 0x8000000080008081, 0x8000000000008009,
  0x000000000000008a, 0x0000000000000088, 0x0000000080008009, 0x000000008000000a,
  0x000000008000808b, 0x800000000000008b, 0x8000000000008089, 0x8000000000008003,
  0x8000000000008002, 0x8000000000000080, 0x000000000000800a, 0x800000008000000a,
  0x8000000080008081, 0x8000000000008080, 0x0000000080000001, 0x8000000080008008]

/-- How far each lane is rotated. -/
def offsets : Array UInt64 := #[
  0, 1, 62, 28, 27,
  36, 44, 6, 55, 20,
  3, 10, 43, 25, 39,
  41, 45, 15, 21, 8,
  18, 2, 61, 56, 14]

/-- One round: column parities, lane rotations, a permutation of the lanes, the nonlinear step on
each row, and the round constant. -/
def round (a : Array UInt64) (constant : UInt64) : Array UInt64 :=
  let lane (v : Array UInt64) (x y : Nat) : UInt64 := v.getD (x % 5 + 5 * (y % 5)) 0
  let parity : Array UInt64 := Array.ofFn fun x : Fin 5 =>
    lane a x 0 ^^^ lane a x 1 ^^^ lane a x 2 ^^^ lane a x 3 ^^^ lane a x 4
  let a : Array UInt64 := Array.ofFn fun i : Fin 25 =>
    let x := i.val % 5
    let d := parity.getD ((x + 4) % 5) 0 ^^^ rotl64 (parity.getD ((x + 1) % 5) 0) 1
    rotl64 (a.getD i 0 ^^^ d) (offsets.getD i 0)
  let b : Array UInt64 := Array.ofFn fun i : Fin 25 =>
    let x := i.val % 5
    let y := i.val / 5
    lane a (x + 3 * y) x
  Array.ofFn fun i : Fin 25 =>
    let x := i.val % 5
    let y := i.val / 5
    let out := lane b x y ^^^ (~~~(lane b (x + 1) y) &&& lane b (x + 2) y)
    if i.val = 0 then out ^^^ constant else out

/-- The permutation: twenty-four rounds. -/
def permute (a : Array UInt64) : Array UInt64 := roundConstants.foldl round a

/-- Absorbs a block of seventy-two bytes. -/
def absorb (a : Array UInt64) (block : List UInt8) : Array UInt64 :=
  let m := ((pieces 8 block).map littleEndian64).toArray
  permute (Array.ofFn fun i : Fin 25 => a.getD i 0 ^^^ m.getD i 0)

/-- The message followed by a one bit, zeros and a last one bit, to a multiple of seventy-two
bytes. -/
def pad (message : List UInt8) : List UInt8 :=
  let missing := 72 - message.length % 72
  if missing = 1 then message ++ [0x81]
  else message ++ 0x01 :: List.replicate (missing - 2) 0 ++ [0x80]

/-- The digest of a message, as sixty-four bytes. -/
def hash (message : List UInt8) : List UInt8 :=
  (((pieces 72 (pad message)).foldl absorb (Array.replicate 25 0)).toList.take 8).flatMap
    bytesOfLittle64

end HeaderRules.Hash.Keccak512
