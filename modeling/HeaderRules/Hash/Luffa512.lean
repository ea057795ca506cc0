import HeaderRules.Hash.Words

/-!
# Luffa-512

The seventh X11 stage: a sponge over five sub-permutations of eight 32-bit words. A block of eight
words is injected into all five by multiplications with `x` in a ring of 256-bit polynomials, then
each sub-permutation runs eight rounds with its own constants. The digest is taken from two
further rounds without input.
-/

namespace HeaderRules.Hash.Luffa512

/-- Eight words. -/
abbrev Row := Array UInt32

/-- The five rows before the first block. -/
def initial : List Row := [
  #[0x6d251e69, 0x44b051e0, 0x4eaa6fb4, 0xdbf78465, 0x6e292011, 0x90152df4, 0xee058139, 0xdef610bb],
  #[0xc3b44b95, 0xd9d2f256, 0x70eee9a0, 0xde099fa3, 0x5d9b0557, 0x8fc944b3, 0xcf1ccf0e, 0x746cd581],
  #[0xf7efc89d, 0x5dba5781, 0x04016ce5, 0xad659c05, 0x0306194f, 0x666d1836, 0x24aa230a, 0x8b264ae7],
  #[0x858075d5, 0x36d79cce, 0xe571f7d7, 0x204b1f67, 0x35870c6a, 0x57e9e923, 0x14bcb808, 0x7cde72ce],
  #[0x6c68e9be, 0x5ec41e22, 0xc825b7c7, 0xaffb4363, 0xf5df3999, 0x0fc688f1, 0xb07224cc, 0x03e86cea]]

/-- The round constants of each sub-permutation: what a round adds to word 0 and to word 4. -/
def constants : List (List (UInt32 × UInt32)) := [
  [(0x303994a6, 0xe0337818), (0xc0e65299, 0x441ba90d), (0x6cc33a12, 0x7f34d442),
    (0xdc56983e, 0x9389217f), (0x1e00108f, 0xe5a8bce6), (0x7800423d, 0x5274baf4),
    (0x8f5b7882, 0x26889ba7), (0x96e1db12, 0x9a226e9d)],
  [(0xb6de10ed, 0x01685f3d), (0x70f47aae, 0x05a17cf4), (0x0707a3d4, 0xbd09caca),
    (0x1c1e8f51, 0xf4272b28), (0x707a3d45, 0x144ae5cc), (0xaeb28562, 0xfaa7ae2b),
    (0xbaca1589, 0x2e48f1c1), (0x40a46f3e, 0xb923c704)],
  [(0xfc20d9d2, 0xe25e72c1), (0x34552e25, 0xe623bb72), (0x7ad8818f, 0x5c58a4a4),
    (0x8438764a, 0x1e38e2e7), (0xbb6de032, 0x78e38b9d), (0xedb780c8, 0x27586719),
    (0xd9847356, 0x36eda57f), (0xa2c78434, 0x703aace7)],
  [(0xb213afa5, 0xe028c9bf), (0xc84ebe95, 0x44756f91), (0x4e608a22, 0x7e8fce32),
    (0x56d858fe, 0x956548be), (0x343b138f, 0xfe191be2), (0xd0ec4e3d, 0x3cb226e5),
    (0x2ceb4882, 0x5944a28e), (0xb3ad2208, 0xa1c4c355)],
  [(0xf0d2e9e3, 0x5090d577), (0xac11d7fa, 0x2d1925ab), (0x1bcb66f2, 0xb46496ac),
    (0x6f2d9bc9, 0xd1925ab0), (0x78602649, 0x29131ab6), (0x8edae952, 0x0fc053c3),
    (0x3b6ba548, 0x3f014f0c), (0xedae9520, 0xfc053c31)]]

/-- The bitwise difference of two rows. -/
def xor (a b : Row) : Row := a.zipWith (· ^^^ ·) b

/-- Multiplication by `x` modulo `x⁸ + x⁴ + x³ + x + 1`, on the words of a row as coefficients. -/
def double (a : Row) : Row :=
  let w (i : Nat) : UInt32 := a.getD i 0
  #[w 7, w 0 ^^^ w 7, w 1, w 2 ^^^ w 7, w 3 ^^^ w 7, w 4, w 5, w 6]

/-- Each row doubled and added to the next one of the cycle. -/
def doubleAddNext : List Row → List Row
  | [] => []
  | first :: rest => go first (first :: rest)
where
  /-- The doubled rows of the list, where the last one is followed by `first`. -/
  go (first : Row) : List Row → List Row
    | [] => []
    | [last] => [xor (double last) first]
    | a :: b :: rest => xor (double a) b :: go first (b :: rest)

/-- Each row doubled and added to the previous one of the cycle. -/
def doubleAddPrevious (rows : List Row) : List Row :=
  (doubleAddNext rows.reverse).reverse

/-- Injects a block into the rows; row `i` receives the block multiplied by `xⁱ`. -/
def inject (rows : List Row) (block : Row) : List Row :=
  let sum := double (rows.foldl xor (Array.replicate 8 0))
  let mixed := doubleAddPrevious (doubleAddNext (rows.map (xor sum)))
  mixed.zipIdx.map fun (row, i) => xor row (Nat.repeat double i block)

/-- The substitution, on four words at a time. -/
def substitute (a0 a1 a2 a3 : UInt32) : UInt32 × UInt32 × UInt32 × UInt32 :=
  let t := a0
  let a0 := a0 ||| a1
  let a2 := a2 ^^^ a3
  let a1 := ~~~a1
  let a0 := a0 ^^^ a3
  let a3 := a3 &&& t
  let a1 := a1 ^^^ a3
  let a3 := a3 ^^^ a2
  let a2 := a2 &&& a0
  let a0 := ~~~a0
  let a2 := a2 ^^^ a1
  let a1 := a1 ||| a3
  let t := t ^^^ a1
  let a3 := a3 ^^^ a2
  let a2 := a2 &&& a1
  let a1 := a1 ^^^ a0
  (t, a1, a2, a3)

/-- The linear mix of a word of the front half with its partner in the back half. -/
def mixWords (u v : UInt32) : UInt32 × UInt32 :=
  let v := v ^^^ u
  let u := rotl32 u 2 ^^^ v
  let v := rotl32 v 14 ^^^ u
  let u := rotl32 u 10 ^^^ v
  (u, rotl32 v 1)

/-- One round of a sub-permutation. -/
def round (a : Row) (constant : UInt32 × UInt32) : Row :=
  let w (i : Nat) : UInt32 := a.getD i 0
  let (b0, b1, b2, b3) := substitute (w 0) (w 1) (w 2) (w 3)
  let (b5, b6, b7, b4) := substitute (w 5) (w 6) (w 7) (w 4)
  let (c0, c4) := mixWords b0 b4
  let (c1, c5) := mixWords b1 b5
  let (c2, c6) := mixWords b2 b6
  let (c3, c7) := mixWords b3 b7
  #[c0 ^^^ constant.1, c1, c2, c3, c4 ^^^ constant.2, c5, c6, c7]

/-- Sub-permutation number `i`: the back half is rotated by `i`, then eight rounds follow. -/
def permuteRow (a : Row) (i : Nat) : Row :=
  let tweaked := a.mapIdx fun k w => if k < 4 || i = 0 then w else rotl32 w (UInt32.ofNat i)
  (constants.getD i []).foldl round tweaked

/-- Injects a block and runs the five sub-permutations. -/
def compress (rows : List Row) (block : Row) : List Row :=
  (inject rows block).zipIdx.map fun (row, i) => permuteRow row i

/-- The message followed by a one bit and zeros, to a multiple of thirty-two bytes. -/
def pad (message : List UInt8) : List UInt8 :=
  message ++ 0x80 :: List.replicate (31 - message.length % 32) 0

/-- The sum of the rows, as thirty-two bytes of output. -/
def output (rows : List Row) : List UInt8 :=
  (rows.foldl xor (Array.replicate 8 0)).toList.flatMap bytesOfBig32

/-- The digest of a message, as sixty-four bytes. -/
def hash (message : List UInt8) : List UInt8 :=
  let blank : Row := Array.replicate 8 0
  let absorbed := ((pieces 32 (pad message)).map fun block =>
    ((pieces 4 block).map bigEndian32).toArray).foldl compress initial
  let first := compress absorbed blank
  output first ++ output (compress first blank)

end HeaderRules.Hash.Luffa512
